import ClawBox.PageSnapshot.Container

namespace ClawBox.PageSnapshot

open SparseFile Raising Work

variable {host : Host} {zstd : Zstd}

structure Host.Healthy (host : Host) : Prop where
  opensInput : host.opensInput = true
  opensOutput : host.opensOutput = true
  malloc : ∀ n, host.malloc n = true
  ftruncate : ∀ n, host.ftruncate n = true
  pread : ∀ offset size, (host.pread offset size).isSome
  pwrite : ∀ offset size, (host.pwrite offset size).isSome
  fsync : host.fsync = true
  fstat : host.fstat = true
  page : 0 < host.pageSize

namespace Host

theorem Healthy.readLoop (hh : host.Healthy) {f : Image} {fuel size : ℕ} {offset : ℤ} (hfuel : size ≤ fuel)
    (ho : 0 ≤ offset) (hend : size = 0 ∨ offset + size ≤ f.size) :
    host.readLoop f fuel size offset = some (f.slice offset.toNat size) := by
  induction fuel generalizing size offset with
  | zero =>
    obtain rfl : size = 0 := by omega
    rfl
  | succ fuel ih =>
    cases size with
    | zero => rfl
    | succ size =>
      obtain ⟨wish, hw⟩ := Option.isSome_iff_exists.mp (hh.pread offset.toNat (size + 1))
      rw [Host.readLoop, if_neg (by omega), hw]
      dsimp only
      generalize hg : min (max wish 1) (min (size + 1) (f.size - offset.toNat)) = got
      have hnat : (offset + got).toNat = offset.toNat + got := by omega
      rw [if_neg (by omega), ih (by omega) (by omega) (by omega), Option.map_some, hnat, Image.slice_append]
      congr 2
      omega

theorem Healthy.readFull (hh : host.Healthy) {f : Image} {size : ℕ} {offset : ℤ} (ho : 0 ≤ offset)
    (hend : size = 0 ∨ offset + size ≤ f.size) : host.readFull f size offset = some (f.slice offset.toNat size) :=
  hh.readLoop le_rfl ho hend

theorem Healthy.writeLoop (hh : host.Healthy) {f : Image} {fuel : ℕ} {data : Bytes} {offset : ℤ}
    (hfuel : data.length ≤ fuel) (ho : 0 ≤ offset) (hend : offset + data.length ≤ pwriteLimit) :
    host.writeLoop fuel f data offset = some (f.write offset.toNat data) := by
  induction fuel generalizing f data offset with
  | zero =>
    obtain rfl : data = [] := List.length_eq_zero_iff.mp (by omega)
    rfl
  | succ fuel ih =>
    by_cases hd : data = []
    · subst hd
      rfl
    obtain ⟨wish, hw⟩ := Option.isSome_iff_exists.mp (hh.pwrite offset.toNat data.length)
    have hpos := List.length_pos_iff.mpr hd
    rw [Host.writeLoop]
    swap
    · exact hd
    rw [if_neg (by omega), hw]
    dsimp only
    generalize hg : min (max wish 1) (min data.length (pwriteLimit - offset.toNat)) = written
    have htake : (data.take written).length = written := by
      rw [List.length_take]
      omega
    have hnat : (offset + written).toNat = offset.toNat + (data.take written).length := by omega
    rw [ih (by rw [List.length_drop]; omega) (by omega) (by rw [List.length_drop]; omega), hnat, Image.write_append,
      List.take_append_drop]

theorem Healthy.writeFull (hh : host.Healthy) {f : Image} {data : Bytes} {offset : ℤ}
    (ho : 0 ≤ offset) (hend : offset + data.length ≤ pwriteLimit) :
    host.writeFull f data offset = some (f.write offset.toNat data) :=
  hh.writeLoop le_rfl ho hend

end Host

def Filled (g : Image) (o : ℕ) (buffer : Bytes) (cursor : ℕ) (w : Work) : Prop :=
  ∃ f, w.output = some f ∧ f.size = g.size ∧ ∀ k < g.size,
    f.byte k = if o ≤ k ∧ k < o + min cursor buffer.length then buffer.getD (k - o) 0 else g.byte k

section Sparse

variable {g : Image} {o page cursor capacity : ℕ} {buffer : Bytes}

theorem image_filled : Triple (Filled g o buffer cursor) image (fun f w => w.output = some f ∧ f.size = g.size ∧
    ∀ k < g.size, f.byte k = if o ≤ k ∧ k < o + min cursor buffer.length then buffer.getD (k - o) 0 else g.byte k)
    fun _ => False := by
  apply Triple.get_bind
  rintro w ⟨f, hf, hfill⟩
  apply Triple.pure
  rintro w' rfl
  rw [hf]
  exact ⟨rfl, hfill⟩

theorem writePage_filled (hh : host.Healthy) (hc : cursor < buffer.length) (hp : 0 < page)
    (hend : o + buffer.length ≤ g.size) (hlimit : g.size ≤ Host.pwriteLimit)
    (hzero : ∀ k, o ≤ k → k < o + buffer.length → g.byte k = 0) :
    Triple (Filled g o buffer cursor) (writePage host capacity ((buffer.drop cursor).take page) ((o : ℤ) + cursor))
      (fun _ => Filled g o buffer (cursor + page)) fun _ => False := by
  have hpiece : ((buffer.drop cursor).take page).length = min page (buffer.length - cursor) := by simp
  have hbyte : ∀ k, k < min page (buffer.length - cursor) →
      ((buffer.drop cursor).take page).getD k 0 = buffer.getD (cursor + k) 0 := by
    intro k hk
    simp only [List.getD_eq_getElem?_getD, List.getElem?_take, List.getElem?_drop]
    rw [if_pos (by omega)]
  generalize (buffer.drop cursor).take page = piece at *
  apply Triple.ite
  · intro hz
    apply Triple.pure
    rintro w ⟨f, hf, hsize, hfill⟩
    refine ⟨f, hf, hsize, fun k hk => ?_⟩
    rw [hfill k hk]
    by_cases h₁ : o ≤ k ∧ k < o + min cursor buffer.length
    · rw [if_pos h₁, if_pos (by omega)]
    · rw [if_neg h₁]
      split
      · rename_i h₂
        -- the page was skipped because it is zero
        have hk' := hbyte (k - o - cursor) (by omega)
        have hmem : piece.getD (k - o - cursor) 0 = 0 := by
          have hlt : k - o - cursor < piece.length := by omega
          rw [List.getD_eq_getElem?_getD, List.getElem?_eq_getElem hlt, Option.getD_some]
          exact allZero_iff.mp hz _ (List.getElem_mem _)
        rw [hmem] at hk'
        have hidx : cursor + (k - o - cursor) = k - o := by omega
        rw [hidx] at hk'
        rw [← hk', hzero k (by omega) (by omega)]
      · rfl
  · intro _
    refine Triple.bind (Q := fun _ => Filled g o buffer cursor) (Triple.modify fun _ hw => hw) fun _ => ?_
    refine Triple.bind image_filled fun f => Triple.some_bind (hh.writeFull (by omega) (by omega)) ?_
    have hnat : ((o : ℤ) + cursor).toNat = o + cursor := by omega
    have hne : piece ≠ [] := List.ne_nil_of_length_pos (by omega)
    rw [hnat]
    apply Triple.modify
    rintro w ⟨-, hsize, hfill⟩
    refine ⟨_, rfl, ?_, fun k hk => ?_⟩
    · rw [Image.size_write hne]
      omega
    · rw [Image.byte_write (.inl (by omega)), hfill k hk]
      by_cases h₁ : o + cursor ≤ k ∧ k < o + cursor + piece.length
      · rw [if_pos h₁, if_pos (by omega), hbyte _ (by omega)]
        congr 1
        omega
      · rw [if_neg h₁]
        by_cases h₂ : o ≤ k ∧ k < o + min cursor buffer.length
        · rw [if_pos h₂, if_pos (by omega)]
        · rw [if_neg h₂, if_neg (by omega)]

theorem writeSparseLoop_filled (hh : host.Healthy) (hp : 0 < page) (hend : o + buffer.length ≤ g.size)
    (hlimit : g.size ≤ Host.pwriteLimit) (hzero : ∀ k, o ≤ k → k < o + buffer.length → g.byte k = 0) (fuel : ℕ)
    (hfuel : buffer.length ≤ cursor + fuel) :
    Triple (Filled g o buffer cursor) (writeSparseLoop host capacity buffer page o fuel cursor)
      (fun _ => Filled g o buffer buffer.length) fun _ => False := by
  have hdone : ∀ c w, buffer.length ≤ c → Filled g o buffer c w → Filled g o buffer buffer.length w := by
    rintro c w hc ⟨f, hf, hsize, hfill⟩
    refine ⟨f, hf, hsize, fun k hk => ?_⟩
    rw [hfill k hk, Nat.min_eq_right hc, Nat.min_self]
  induction fuel generalizing cursor with
  | zero => exact Triple.pure fun w hw => hdone cursor w (by omega) hw
  | succ fuel ih =>
    apply Triple.ite
    · intro hc
      exact Triple.bind (writePage_filled hh hc hp hend hlimit hzero) fun _ => ih (by omega)
    · intro hc
      exact Triple.pure fun w hw => hdone cursor w (by omega) hw

end Sparse

def Restored (input : Image) (limit : ℕ) (f : Image) : Prop :=
  f.size = input.size ∧ ∀ k < input.size, f.byte k = if k < limit then input.byte k else 0

def Restoring (input : Image) (limit : ℕ) (w : Work) : Prop := ∃ f, w.output = some f ∧ Restored input limit f

section Decode

variable {input container : Image} {h : Header} {i : ℕ}

theorem chunk_end (hfits : Fits h) (hlogical : h.logicalSize.toNat = input.size) (hi : i < h.chunkCount.toNat) {k : ℕ}
    (hk : k < input.size) (hlt : k < (i + 1) * h.chunkSize.toNat) :
    k < i * h.chunkSize.toNat + (h.valid (.ofNat i)).toNat := by
  have hstart := hfits.start i hi
  obtain ⟨-, -, hend⟩ := hfits.valid i hi
  rw [Nat.add_mul, Nat.one_mul] at hlt
  unfold Header.valid
  split
  · rw [Header.toNat_chunk]
    exact hlt
  · rw [UInt64.toNat_sub_of_le]
    · rw [hstart, hlogical]
      omega
    · rw [UInt64.le_iff_toNat_le, hstart]
      omega

theorem Restored.hole (hfits : Fits h) (hlogical : h.logicalSize.toNat = input.size) {f : Image}
    (hr : Restored input (i * h.chunkSize.toNat) f) (hi : i < h.chunkCount.toNat)
    (hz : allZero (chunkOf input h i) = true) :
    Restored input ((i + 1) * h.chunkSize.toNat) f := by
  refine ⟨hr.1, fun k hk => ?_⟩
  have hend := chunk_end hfits hlogical hi hk
  have hsucc : (i + 1) * h.chunkSize.toNat = i * h.chunkSize.toNat + h.chunkSize.toNat := by
    rw [Nat.add_mul, Nat.one_mul]
  rw [hsucc] at hend ⊢
  rw [hr.2 k hk]
  by_cases hlt : k < i * h.chunkSize.toNat
  · rw [if_pos hlt, if_pos (by omega)]
  · rw [if_neg hlt]
    split
    · rename_i hlt'
      have hk' := allZero_slice.mp hz (k - i * h.chunkSize.toNat) (by have := hend hlt'; omega)
      have hsum : i * h.chunkSize.toNat + (k - i * h.chunkSize.toNat) = k := by omega
      rw [hsum] at hk'
      exact hk'.symm
    · rfl

theorem Restored.filled (hfits : Fits h) (hlogical : h.logicalSize.toNat = input.size) {f : Image} {w : Work}
    (hr : Restored input (i * h.chunkSize.toNat) f) (hi : i < h.chunkCount.toNat)
    (hw : Filled f (i * h.chunkSize.toNat) (chunkOf input h i) (chunkOf input h i).length w) :
    Restoring input ((i + 1) * h.chunkSize.toNat) w := by
  obtain ⟨f', hf', hsize, hfill⟩ := hw
  have hlen : (chunkOf input h i).length = (h.valid (.ofNat i)).toNat := Image.length_slice
  obtain ⟨-, hle, -⟩ := hfits.valid i hi
  refine ⟨f', hf', hsize.trans hr.1, fun k hk => ?_⟩
  have hend := chunk_end hfits hlogical hi hk
  have hsucc : (i + 1) * h.chunkSize.toNat = i * h.chunkSize.toNat + h.chunkSize.toNat := by
    rw [Nat.add_mul, Nat.one_mul]
  rw [hsucc] at hend ⊢
  rw [hfill k (hr.1 ▸ hk), Nat.min_self, hlen, hr.2 k hk]
  by_cases hin : i * h.chunkSize.toNat ≤ k ∧ k < i * h.chunkSize.toNat + (h.valid (.ofNat i)).toNat
  · rw [if_pos hin, if_pos (by omega)]
    have hbyte : (chunkOf input h i).getD (k - i * h.chunkSize.toNat) 0 = _ := Image.getD_slice (by omega)
    have hsum : i * h.chunkSize.toNat + (k - i * h.chunkSize.toNat) = k := by omega
    rw [hsum] at hbyte
    exact hbyte
  · rw [if_neg hin]
    by_cases hlt : k < i * h.chunkSize.toNat
    · rw [if_pos hlt, if_pos (by omega)]
    · rw [if_neg hlt, if_neg]
      exact fun hlt' => hin ⟨by omega, hend hlt'⟩

theorem entryAt_index (hcount : h.chunkCount.toNat < 2 ^ 60) (hi : i < h.chunkCount.toNat) :
    entryAt (container.slice 64 (h.chunkCount.toNat * 16)) (.ofNat i) =
    Entry.parse (container.slice (64 + i * 16) 16) := by
  have hword : entrySize.toNat = 16 := rfl
  have hmul : (UInt64.ofNat i * entrySize).toNat = i * 16 := by
    rw [UInt64.toNat_mul, UInt64.toNat_ofNat', hword]
    omega
  rw [entryAt, hmul, hword, Image.take_drop_slice (by omega)]

theorem growPayload_restoring (hh : host.Healthy) (limit length : ℕ) :
    Triple (Restoring input limit) (growPayload host length) (fun _ => Restoring input limit) fun _ => False := by
  apply Triple.get_bind
  intro w hw
  apply Triple.ite
  · intro _
    refine Triple.met_bind (hh.malloc _) (Triple.modify ?_)
    rintro w' rfl
    exact hw
  · intro _
    exact Triple.pure fun w' hw' => hw' ▸ hw

theorem writeSparse_restoring (hh : host.Healthy) (hfits : Fits h) (hlogical : h.logicalSize.toNat = input.size)
    (hsize : input.size < 2 ^ 63) (hi : i < h.chunkCount.toNat) (capacity : ℕ) :
    Triple (Restoring input (i * h.chunkSize.toNat))
      (writeSparse host capacity (chunkOf input h i) ((i * h.chunkSize.toNat : ℕ) : ℤ))
      (fun _ => Restoring input ((i + 1) * h.chunkSize.toNat)) fun _ => False := by
  obtain ⟨-, -, hend⟩ := hfits.valid i hi
  rw [hlogical] at hend
  refine Triple.met_bind hh.page (Triple.of_state ?_)
  rintro w ⟨f, hf, hr⟩
  have hlen : (chunkOf input h i).length = (h.valid (.ofNat i)).toNat := Image.length_slice
  have hfsize : f.size = input.size := hr.1
  have hzero : ∀ k, i * h.chunkSize.toNat ≤ k → k < i * h.chunkSize.toNat + (chunkOf input h i).length →
      f.byte k = 0 := by
    intro k hk hk'
    rw [hr.2 k (by omega), if_neg (by omega)]
  have hpage : 0 < host.pageSize.toNat := by
    have := hh.page
    omega
  have hlimit : f.size ≤ Host.pwriteLimit := by
    simp only [Host.pwriteLimit]
    omega
  have hempty : Filled f (i * h.chunkSize.toNat) (chunkOf input h i) 0 w := by
    refine ⟨f, hf, rfl, fun k hk => ?_⟩
    rw [if_neg (by omega)]
  refine Triple.weaken (writeSparseLoop_filled hh hpage (by omega) hlimit hzero _ (by omega)) ?_ ?_ fun _ h => h
  · rintro w' rfl
    exact hempty
  · exact fun _ _ hq => hr.filled hfits hlogical hi hq

theorem decodeChunk_restoring (hh : host.Healthy) (hfits : Fits h) (hlogical : h.logicalSize.toNat = input.size)
    (hsize : input.size < 2 ^ 63) (hcount : h.chunkCount.toNat < 2 ^ 60) (hc : Container zstd input h container)
    (hi : i < h.chunkCount.toNat) :
    Triple (Restoring input (i * h.chunkSize.toNat))
      (decodeChunk host zstd container h (container.slice 64 (h.chunkCount.toNat * 16)) (.ofNat i))
      (fun _ => Restoring input ((i + 1) * h.chunkSize.toNat)) fun _ => False := by
  obtain ⟨-, -, hend⟩ := hfits.valid i hi
  have hstart := hfits.start i hi
  have hplace : offT (UInt64.ofNat i * h.chunk) = ((i * h.chunkSize.toNat : ℕ) : ℤ) := by
    rw [offT_of_lt (by omega), hstart]
  rw [decodeChunk, entryAt_index hcount hi, hplace]
  rcases hc.entry i hi with ⟨he, hz⟩ | hs
  · rw [he]
    refine Triple.ite (fun _ => Triple.pure ?_) fun hne => absurd rfl hne
    rintro w ⟨f, hf, hr⟩
    exact ⟨f, hf, hr.hole hfits hlogical hi hz⟩
  generalize Entry.parse (container.slice (64 + i * 16) 16) = e at *
  have hwithin := hs.within
  have hsmall := hc.small
  have hpos := hs.length_pos
  have hoff : offT e.offset = (e.offset.toNat : ℤ) := offT_of_lt (by omega)
  refine Triple.ite (fun hhole => absurd (hs.encoding.symm.trans hhole) (by decide)) fun _ => ?_
  refine Triple.met_bind ⟨?_, UInt64.le_iff_toNat_le.mpr hs.after⟩ ?_
  · intro hz
    rw [hz] at hpos
    exact absurd hpos (by decide)
  refine Triple.bind (growPayload_restoring hh _ _) fun _ => Triple.get_bind ?_
  intro w₀ hw₀
  refine Triple.bind (Q := fun _ => Restoring input (i * h.chunkSize.toNat)) (Triple.modify ?_) fun _ => ?_
  · rintro w rfl
    exact hw₀
  refine Triple.some_bind (hh.readFull (by omega) (.inr (by omega))) (Triple.met_bind hs.encoding ?_)
  refine Triple.bind (Q := fun _ => Restoring input (i * h.chunkSize.toNat)) (Triple.modify fun _ hw => hw) fun _ => ?_
  rw [hoff, Int.toNat_natCast]
  exact Triple.some_bind hs.decodes
    (Triple.met_bind Image.length_slice (writeSparse_restoring hh hfits hlogical hsize hi _))

theorem decodeChunks_restoring (hh : host.Healthy) (hfits : Fits h) (hlogical : h.logicalSize.toNat = input.size)
    (hsize : input.size < 2 ^ 63) (hcount : h.chunkCount.toNat < 2 ^ 60) (hc : Container zstd input h container) {m : ℕ}
    (hm : i + m = h.chunkCount.toNat) :
    Triple (Restoring input (i * h.chunkSize.toNat))
      (decodeChunks host zstd container h (container.slice 64 (h.chunkCount.toNat * 16)) (List.range' i m))
      (fun _ => Restoring input (h.chunkCount.toNat * h.chunkSize.toNat)) fun _ => False := by
  induction m generalizing i with
  | zero =>
    rw [← hm]
    exact Triple.pure fun _ hw => hw
  | succ m ih =>
    rw [List.range'_succ]
    exact Triple.bind (decodeChunk_restoring hh hfits hlogical hsize hcount hc (by omega)) fun _ => ih (by omega)

structure Accepted (h : Header) : Prop where
  wellFormed : h.wellFormed = true
  magic : h.magic.length = 8
  count : h.chunkCount ≤ sizeMax / entrySize
  index : h.indexOffset = headerSize
  small : h.chunkCount.toNat < 2 ^ 60
  cover : h.logicalSize.toNat ≤ h.chunkCount.toNat * h.chunkSize.toNat
  data : h.dataOffset.toNat = 64 + h.chunkCount.toNat * 16

theorem decompressBody_restores (hh : host.Healthy) (hfits : Fits h) (ha : Accepted h)
    (hlogical : h.logicalSize.toNat = input.size) (hsize : input.size < 2 ^ 63)
    (hc : Container zstd input h container) :
    Triple (fun w => w.output = none) (decompressBody host zstd container)
      (fun _ w => ∃ f, w.output = some f ∧ f.Same input) fun _ => False := by
  have hcovers := hc.covers
  have hdata := ha.data
  have hword : headerSize.toNat = 64 := rfl
  refine Triple.met_bind hh.opensInput ?_
  refine Triple.bind (Q := fun _ w => w.output = none) (Triple.modify fun _ hw => hw) fun _ => ?_
  refine Triple.some_bind (hh.readFull le_rfl (.inr (by omega))) ?_
  have hparse : Header.parse (container.slice (0 : ℤ).toNat headerSize.toNat) = h := by
    rw [hword]
    change Header.parse (container.slice 0 64) = h
    rw [hc.header, Header.parse_bytes h ha.magic]
  rw [hparse]
  refine Triple.met_bind ha.wellFormed (Triple.met_bind ha.count (Triple.met_bind ⟨hh.malloc _, hh.malloc _⟩ ?_))
  refine Triple.bind (Q := fun _ w => w.output = none) (Triple.modify fun _ hw => hw) fun _ => ?_
  have hindexOffset : offT h.indexOffset = 64 := by
    rw [ha.index]
    rfl
  rw [hfits.index, hindexOffset]
  refine Triple.some_bind (hh.readFull (by omega) (by omega)) ?_
  refine Triple.bind (Q := fun _ w => w.output = some .empty) (Triple.get_bind fun w hw => Triple.met_bind ?_ ?_)
    fun _ => ?_
  · exact ⟨hh.opensOutput, by rw [hw]; rfl⟩
  · exact Triple.modify fun _ _ => rfl
  refine Triple.bind (Q := fun f w => w.output = some .empty ∧ f = .empty) (Triple.get_bind fun w hw => Triple.pure ?_)
    fun f => ?_
  · rintro w' rfl
    exact ⟨hw, by rw [hw]; rfl⟩
  have hoff : offT h.logicalSize = (h.logicalSize.toNat : ℤ) := offT_of_lt (by omega)
  have htrunc : host.truncateFile f (offT h.logicalSize) = some (f.truncate input.size) := by
    rw [Host.truncateFile, hoff, if_neg, Int.toNat_natCast, hlogical]
    rintro (hneg | hfail)
    · omega
    · rw [hh.ftruncate] at hfail
      cases hfail
  refine Triple.some_bind htrunc ?_
  refine Triple.bind (Q := fun _ => Restoring input 0) (Triple.modify ?_) fun _ => ?_
  · rintro w ⟨-, rfl⟩
    refine ⟨_, rfl, rfl, fun k hk => ?_⟩
    simp [Image.truncate, Image.empty]
  refine Triple.bind (Q := fun _ => Restoring input (0 * h.chunkSize.toNat)) (Triple.modify ?_) fun _ => ?_
  · intro w hw
    rw [Nat.zero_mul]
    exact hw
  rw [List.range_eq_range']
  refine Triple.bind (decodeChunks_restoring hh hfits hlogical hsize ha.small hc (Nat.zero_add _)) fun _ => ?_
  refine Triple.met_bind hh.fsync ?_
  rw [require, if_pos hh.fstat]
  apply Triple.pure
  rintro w ⟨f, hf, hr⟩
  refine ⟨f, hf, hr.1, fun k hk => ?_⟩
  have hcover := ha.cover
  have hk' : k < input.size := hr.1 ▸ hk
  rw [hr.2 k hk', if_pos (by omega)]

end Decode

theorem headerOf_accepted (input : Sparse) : Accepted (headerOf (.ofNat input.size)) := by
  have hcount := headerOf_chunkCount input
  have hlogical := toNat_logicalSize input
  have hlt := input.size_lt
  have hchunk : chunkBytes.toNat = 1048576 := rfl
  have hsize : (headerOf (.ofNat input.size)).chunkSize.toNat = 1048576 := rfl
  have hmax : (sizeMax / entrySize).toNat = 1152921504606846975 := rfl
  rw [hchunk] at hcount
  refine ⟨headerOf_wellFormed _, rfl, ?_, rfl, by omega, ?_, toNat_dataOffset input⟩
  · rw [UInt64.le_iff_toNat_le, hmax]
    omega
  · rw [hlogical, hsize]
    omega

def entryOf (container : Image) (i : ℕ) : Entry := Entry.parse (container.slice (64 + i * 16) 16)

def Entry.Disjoint (e e' : Entry) : Prop :=
  e.offset.toNat + e.length.toNat ≤ e'.offset.toNat ∨ e'.offset.toNat + e'.length.toNat ≤ e.offset.toNat

/-- The bytes of the input in chunk `i` are all zero. -/
def ZeroChunk (input : Image) (i : ℕ) : Prop :=
  ∀ k, i * chunkBytes.toNat ≤ k → k < (i + 1) * chunkBytes.toNat → k < input.size → input.byte k = 0

theorem allZero_chunkOf (input : Sparse) {i : ℕ} (hi : i < (headerOf (.ofNat input.size)).chunkCount.toNat) :
    allZero (chunkOf input.toImage (headerOf (.ofNat input.size)) i) = true ↔ ZeroChunk input.toImage i := by
  have hfits := headerOf_fits input
  have hlogical := toNat_logicalSize input
  have hsize : chunkBytes.toNat = (headerOf (.ofNat input.size)).chunkSize.toNat := rfl
  obtain ⟨-, hle, hend⟩ := hfits.valid i hi
  rw [chunkOf, allZero_slice, ZeroChunk, hsize]
  have hlast := @chunk_end input.toImage _ i hfits hlogical hi
  have hsucc : ∀ c, (i + 1) * c = i * c + c := fun c => by rw [Nat.add_mul, Nat.one_mul]
  rw [hsucc] at hlast ⊢
  generalize headerOf (.ofNat input.size) = h at *
  constructor
  · intro hz k hk hk' hlt
    have hk'' := hz (k - i * h.chunkSize.toNat) (by have := hlast hlt hk'; omega)
    have hsum : i * h.chunkSize.toNat + (k - i * h.chunkSize.toNat) = k := by omega
    rw [hsum] at hk''
    exact hk''
  · exact fun hz k hk => hz _ (by omega) (by omega) (by omega)

theorem page_snapshot_round_trip (host host' : Host) (zstd : Zstd) (hlaw : zstd.Lawful) (hh : host'.Healthy)
    (input : Sparse) (previous : Option Image) (container : Image)
    (hc : compressFile host zstd input previous = some container) :
    (∃ f, (decompressFile host' zstd container none).code = 0 ∧
      (decompressFile host' zstd container none).output = some f ∧
      f.Same input.toImage) ∧
    (∀ i < (Header.parse (container.slice 0 64)).chunkCount.toNat,
      ((entryOf container i).encoding = encodingHole ↔ ZeroChunk input.toImage i) ∧
      ((entryOf container i).encoding ≠ encodingHole → (entryOf container i).encoding = encodingZstd ∧
        (Header.parse (container.slice 0 64)).dataOffset.toNat ≤ (entryOf container i).offset.toNat ∧
        (entryOf container i).offset.toNat + (entryOf container i).length.toNat ≤ container.size)) ∧
    ∀ i j, i ≠ j → i < (Header.parse (container.slice 0 64)).chunkCount.toNat →
      j < (Header.parse (container.slice 0 64)).chunkCount.toNat → (entryOf container i).encoding = encodingZstd →
      (entryOf container j).encoding = encodingZstd → (entryOf container i).Disjoint (entryOf container j) := by
  have hcont := compressFile_container hlaw hc
  have hparse : Header.parse (container.slice 0 64) = headerOf (.ofNat input.size) := by
    rw [hcont.header, Header.parse_bytes _ rfl]
  rw [hparse]
  refine ⟨?_, fun i hi => ?_, fun i j hij hi hj hei hej => ?_⟩
  · have hbody := decompressBody_restores hh (headerOf_fits input) (headerOf_accepted input) (toNat_logicalSize input)
      input.size_lt hcont { output := none } rfl
    unfold decompressFile leave
    rcases hr : (decompressBody host' zstd container).run { output := none } with ⟨r, w⟩
    rw [hr] at hbody
    cases r with
    | ok _ =>
      obtain ⟨f, hf, hsame⟩ := hbody
      exact ⟨f, rfl, hf, hsame⟩
    | error _ => exact hbody.elim
  · rw [← allZero_chunkOf input hi]
    rcases hcont.entry i hi with ⟨he, hz⟩ | hs
    · have hhole : (entryOf container i).encoding = encodingHole := by
        rw [entryOf, he]
      exact ⟨⟨fun _ => hz, fun _ => hhole⟩, fun hne => absurd hhole hne⟩
    · refine ⟨⟨fun hhole => ?_, fun hz => ?_⟩, fun _ => ⟨hs.encoding, hs.after, hs.within⟩⟩
      · exact absurd (hs.encoding.symm.trans hhole) (by decide)
      · rw [hs.nonzero] at hz
        cases hz
  · rcases Nat.lt_or_gt_of_ne hij with hlt | hlt
    · exact .inl (hcont.apart i j hlt hj hei hej)
    · exact .inr (hcont.apart j i hlt hi hej hei)

section Progress

variable {input : Sparse} {p : Packing}

def Zstd.Total (zstd : Zstd) : Prop :=
  ∀ src, src.length ≤ chunkBytes.toNat → (zstd.compress (zstd.compressBound src.length) src).isSome

theorem encodeChunk_goes_on (hh : host.Healthy) (hseeks : host.seeks = true) (hlaw : zstd.Lawful) (ht : zstd.Total)
    (hsize : input.size ≤ 2 ^ 61) {i : ℕ} (hi : i < (headerOf (.ofNat input.size)).chunkCount.toNat)
    (hpay : p.payload.toNat ≤ i * 2 ^ 21) :
    ∃ q more, encodeChunk host zstd input (headerOf (.ofNat input.size)) (.ofNat i * chunkBytes.toUInt64) p =
    some (q, more) ∧
      q.payload.toNat ≤ (i + 1) * 2 ^ 21 := by
  have hfits := headerOf_fits input
  have hdata := toNat_dataOffset input
  have hcount := headerOf_chunkCount input
  have hlogical := toNat_logicalSize input
  have hchunk : chunkBytes.toNat = 1048576 := rfl
  have hsame : (headerOf (.ofNat input.size)).chunkSize.toNat = 1048576 := rfl
  have hstart : (UInt64.ofNat i * chunkBytes.toUInt64).toNat = i * (headerOf (.ofNat input.size)).chunkSize.toNat :=
    hfits.start i hi
  obtain ⟨-, hvalid, hend⟩ := hfits.valid i hi
  rw [hchunk] at hcount
  rw [hsame] at hstart hvalid hend
  clear hchunk hsame
  rw [encodeChunk, validFrom_eq rfl]
  generalize ((headerOf (.ofNat input.size)).valid (.ofNat i)).toNat = valid at *
  generalize headerOf (.ofNat input.size) = h at *
  generalize UInt64.ofNat i * chunkBytes.toUInt64 = position at *
  have hsmall : position.toNat < 2 ^ 63 := by
    rw [hstart]
    clear hpay hdata hstart
    omega
  have hoff : offT position = (position.toNat : ℤ) := offT_of_lt hsmall
  have hkeep : p.payload.toNat ≤ (i + 1) * 2 ^ 21 := hpay.trans (Nat.mul_le_mul_right _ (Nat.le_succ i))
  unfold encodeAt
  rw [if_neg (by simp [hseeks])]
  cases hseek : input.seekData position.toNat with
  | none => exact ⟨p, false, rfl, hkeep⟩
  | some data =>
    dsimp only
    by_cases hfar : position.toNat + valid ≤ data
    · exact ⟨p, true, if_pos hfar, hkeep⟩
    rw [if_neg hfar, hoff, hh.readFull (by omega) (.inr (by omega))]
    dsimp only
    generalize hpage : input.toImage.slice _ valid = page
    have hlen : page.length = valid := by rw [← hpage, Image.length_slice]
    by_cases hzero : allZero page = true
    · exact ⟨p, true, if_pos hzero, hkeep⟩
    obtain ⟨frame, hframe⟩ := Option.isSome_iff_exists.mp (ht page (hlen.trans_le hvalid))
    rw [hlen] at hframe
    obtain ⟨-, hcap⟩ := hlaw.length _ _ _ hframe
    have hbound := hlaw.bound valid
    have htarget : (h.dataOffset + p.payload).toNat = h.dataOffset.toNat + p.payload.toNat := by
      rw [UInt64.toNat_add]
      omega
    have hfit : offT (h.dataOffset + p.payload) + frame.length ≤ Host.pwriteLimit := by
      rw [offT_of_lt (by omega), htarget, Host.pwriteLimit]
      omega
    rw [if_neg hzero, hframe]
    dsimp only
    rw [hh.writeFull (by rw [offT_of_lt (by omega)]; omega) hfit]
    refine ⟨_, _, rfl, ?_⟩
    change (p.payload + UInt64.ofNat frame.length).toNat ≤ _
    rw [UInt64.toNat_add, UInt64.toNat_ofNat']
    omega

theorem encodeChunks_goes_on (hh : host.Healthy) (hseeks : host.seeks = true) (hlaw : zstd.Lawful) (ht : zstd.Total)
    (hsize : input.size ≤ 2 ^ 61) {i m : ℕ} (hn : i + m = (headerOf (.ofNat input.size)).chunkCount.toNat)
    (hpay : p.payload.toNat ≤ i * 2 ^ 21) :
    ∃ q, encodeChunks host zstd input (headerOf (.ofNat input.size)) (List.range' i m) p = some q ∧
      q.payload.toNat ≤ (i + m) * 2 ^ 21 := by
  induction m generalizing i p with
  | zero => exact ⟨p, rfl, hpay⟩
  | succ m ih =>
    have hi : i < (headerOf (.ofNat input.size)).chunkCount.toNat := hn ▸ Nat.lt_add_of_pos_right (Nat.succ_pos m)
    obtain ⟨q, more, hq, hle⟩ := encodeChunk_goes_on hh hseeks hlaw ht hsize hi hpay
    have hsum : i + 1 + m = i + (m + 1) := by omega
    rw [List.range'_succ, encodeChunks, hq]
    cases more with
    | false => exact ⟨q, rfl, hle.trans (Nat.mul_le_mul_right _ (by omega))⟩
    | true =>
      obtain ⟨r, hr, hrest⟩ := ih (hsum.trans hn) hle
      exact ⟨r, hr, hsum ▸ hrest⟩

theorem compressFile_succeeds (hh : host.Healthy) (hseeks : host.seeks = true) (hlaw : zstd.Lawful) (ht : zstd.Total)
    (hsize : input.size ≤ 2 ^ 61) : ∃ container, compressFile host zstd input none = some container := by
  have hcount := headerOf_chunkCount input
  have hdata := toNat_dataOffset input
  have haccepted := headerOf_accepted input
  have hchunk : chunkBytes.toNat = 1048576 := rfl
  have hbytes : (headerOf (.ofNat input.size)).bytes.length = 64 := Header.length_bytes _ rfl
  rw [hchunk] at hcount
  have hstart : offT (headerOf (.ofNat input.size)).dataOffset =
      ((headerOf (.ofNat input.size)).dataOffset.toNat : ℤ) :=
    offT_of_lt (by omega)
  have hindex : offT (headerOf (.ofNat input.size)).indexOffset = 64 := rfl
  have htruncate : ∀ f (n : ℕ), host.truncateFile f n = some (f.truncate n) := by
    intro f n
    rw [Host.truncateFile, if_neg (by simp [hh.ftruncate]), Int.toNat_natCast]
  have hstarted : Packed zstd input.toImage (headerOf (.ofNat input.size)) 0 _ := packed_start rfl (by omega) (by omega)
  obtain ⟨q, hq, hpay⟩ := encodeChunks_goes_on (p := ⟨_, _, 0⟩) hh hseeks hlaw ht hsize (Nat.zero_add _) (Nat.zero_le _)
  have hpacked := encodeChunks_packed hlaw (Nat.zero_add _) hstarted hq
  have hlength := length_indexBytes q.entries
  rw [hpacked.length] at hlength
  rw [Nat.zero_add] at hpay
  have hroom := hpacked.room
  clear hchunk hpay
  have hend : ((headerOf (.ofNat input.size)).dataOffset + q.payload).toNat < 2 ^ 63 := by
    rw [UInt64.toNat_add]
    omega
  refine ⟨(q.output.write 64 (q.entries.flatMap Entry.bytes)).truncate
    ((headerOf (.ofNat input.size)).dataOffset + q.payload).toNat, ?_⟩
  unfold compressFile
  simp only [Option.bind_eq_bind, Option.bind_eq_some_iff, Option.guard_eq_some', Option.pure_def]
  refine ⟨(), hh.opensInput, (), haccepted.count, (), ⟨hh.malloc _, hh.malloc _, hh.malloc _⟩, (),
    ⟨hh.opensOutput, rfl⟩, _, by rw [hstart, htruncate], _, hh.writeFull le_rfl ?_, q, ?_, _, hh.writeFull ?_ ?_, _, ?_,
    (), ⟨hh.fsync, hh.fstat⟩, rfl⟩
  · rw [hbytes, Host.pwriteLimit]
    decide
  · rw [List.range_eq_range']
    exact hq
  · rw [hindex]
    decide
  · rw [hindex, hlength, Host.pwriteLimit]
    omega
  · rw [offT_of_lt hend, htruncate, hindex]
    rfl

end Progress

section Frames

-- The header of a block holds its size, and whether it is the last one.
def rawBlocks (block : ℕ) : ℕ → Bytes → Bytes
  | 0, src => littleEndian 3 (src.length * 8 + 1) ++ src
  | n + 1, src => littleEndian 3 (block * 8) ++ (src.take block ++ rawBlocks block n (src.drop block))

def unblock : ℕ → Bytes → Bytes
  | 0, _ => []
  | n + 1, bs =>
    let header := ofLittleEndian (bs.take 3)
    (bs.drop 3).take (header / 8) ++ if header % 2 = 1 then [] else unblock n ((bs.drop 3).drop (header / 8))

def blockBytes : ℕ := 128 * 1024

def rawFrame (src : Bytes) : Bytes :=
  [0x28, 0xb5, 0x2f, 0xfd] ++
    (if src.length < 256 then [0x20, .ofNat src.length] else [0x80, 0x48] ++ littleEndian 4 src.length) ++
    rawBlocks blockBytes ((src.length - 1) / blockBytes) src

def unframe (frame : Bytes) : Bytes := unblock 8 (frame.drop (if frame.getD 4 0 = 0x20 then 6 else 10))

def rawZstd : Zstd where
  compressBound n := n + n / 256 + 64
  compress capacity src :=
    if src.length ≤ 8 * blockBytes ∧ (rawFrame src).length ≤ capacity then some (rawFrame src) else none
  decompress capacity frame :=
    if frame = rawFrame (unframe frame) ∧ (unframe frame).length ≤ capacity then some (unframe frame) else none

section Blocks

variable {block n m : ℕ} {src : Bytes}

theorem length_rawBlocks (h : n * block ≤ src.length) : (rawBlocks block n src).length = 3 * (n + 1) + src.length := by
  induction n generalizing src with
  | zero => simp [rawBlocks]
  | succ n ih =>
    rw [Nat.succ_mul] at h
    simp only [rawBlocks, List.length_append, length_littleEndian, List.length_take]
    rw [ih (by rw [List.length_drop]; omega), List.length_drop]
    omega

theorem unblock_append {header : ℕ} {data rest : Bytes} (hsize : header < 2 ^ 24) (hdata : data.length = header / 8) :
    unblock (m + 1) (littleEndian 3 header ++ (data ++ rest)) =
      data ++ if header % 2 = 1 then [] else unblock m rest := by
  have hheader : ofLittleEndian (littleEndian 3 header) = header := by
    rw [ofLittleEndian_littleEndian, Nat.mod_eq_of_lt (by omega)]
  have htake : (littleEndian 3 header ++ (data ++ rest)).take 3 = littleEndian 3 header := List.take_left' (by simp)
  have hdrop : (littleEndian 3 header ++ (data ++ rest)).drop 3 = data ++ rest := List.drop_left' (by simp)
  rw [unblock]
  simp only [htake, hheader, hdrop, List.take_left' hdata, List.drop_left' hdata]

theorem unblock_rawBlocks (hblock : block < 2 ^ 21) (hm : n < m) (hlow : n * block ≤ src.length)
    (hhigh : src.length ≤ (n + 1) * block) : unblock m (rawBlocks block n src) = src := by
  induction n generalizing m src with
  | zero =>
    obtain ⟨m, rfl⟩ : ∃ k, m = k + 1 := ⟨m - 1, by omega⟩
    have hone : unblock (m + 1) (littleEndian 3 (src.length * 8 + 1) ++ (src ++ [])) = _ :=
      unblock_append (by omega) (by omega)
    rw [List.append_nil] at hone
    rw [rawBlocks, hone, if_pos (by omega), List.append_nil]
  | succ n ih =>
    obtain ⟨m, rfl⟩ : ∃ k, m = k + 1 := ⟨m - 1, by omega⟩
    rw [Nat.succ_mul] at hlow hhigh
    have htake : (src.take block).length = block * 8 / 8 := by
      rw [List.length_take, Nat.mul_div_cancel _ (by decide)]
      omega
    have hrest : unblock m (rawBlocks block n (src.drop block)) = src.drop block := by
      refine ih (by omega) ?_ ?_
      · rw [List.length_drop]
        omega
      · rw [List.length_drop]
        omega
    rw [rawBlocks, unblock_append (by omega) htake, if_neg (by omega), hrest, List.take_append_drop]

end Blocks

variable {src : Bytes}

theorem length_blocks (h : src.length ≤ 8 * blockBytes) :
    (src.length - 1) / blockBytes < 8 ∧ (src.length - 1) / blockBytes * blockBytes ≤ src.length ∧
      src.length ≤ ((src.length - 1) / blockBytes + 1) * blockBytes := by
  have hlast := Nat.div_add_mod (src.length - 1) blockBytes
  have hmod := Nat.mod_lt (src.length - 1) (show 0 < blockBytes by decide)
  rw [Nat.mul_comm] at hlast
  refine ⟨Nat.div_lt_of_lt_mul ?_, ?_, ?_⟩
  · have hpos : 0 < blockBytes := by decide
    omega
  · omega
  · rw [Nat.succ_mul]
    omega

theorem unframe_rawFrame (h : src.length ≤ 8 * blockBytes) : unframe (rawFrame src) = src := by
  obtain ⟨hlt, hlow, hhigh⟩ := length_blocks h
  have hblocks := unblock_rawBlocks (by decide) hlt hlow hhigh
  by_cases hshort : src.length < 256
  · simpa [unframe, rawFrame, hshort] using hblocks
  · simpa [unframe, rawFrame, hshort] using hblocks

theorem length_rawFrame (h : src.length ≤ 8 * blockBytes) :
    0 < (rawFrame src).length ∧ (rawFrame src).length ≤ src.length + 64 := by
  obtain ⟨hlt, hlow, -⟩ := length_blocks h
  rw [rawFrame, List.length_append, length_rawBlocks hlow]
  split
  · simp only [List.length_append, List.length_cons, List.length_nil]
    omega
  · simp only [List.length_append, List.length_cons, List.length_nil, length_littleEndian]
    omega

theorem rawZstd_lawful : rawZstd.Lawful where
  bound _ := le_rfl
  length capacity src frame hc := by
    simp only [rawZstd, Option.ite_none_right_eq_some, Option.some.injEq] at hc
    obtain ⟨⟨hsize, hle⟩, rfl⟩ := hc
    exact ⟨(length_rawFrame hsize).1, hle⟩
  inverse capacity src frame hc := by
    simp only [rawZstd, Option.ite_none_right_eq_some, Option.some.injEq] at hc
    obtain ⟨⟨hsize, -⟩, rfl⟩ := hc
    simp only [rawZstd, unframe_rawFrame hsize, le_refl, and_self, if_true]

theorem rawZstd_total : rawZstd.Total := by
  intro src hsize
  have hle := (length_rawFrame hsize).2
  have hcompress : rawZstd.compress (rawZstd.compressBound src.length) src = some (rawFrame src) := by
    refine if_pos ⟨hsize, hle.trans ?_⟩
    change src.length + 64 ≤ src.length + src.length / 256 + 64
    omega
  rw [hcompress]
  rfl

end Frames

def exampleHost : Host where
  inputPath := "memory"
  outputPath := "memory.zst"
  opensInput := true
  opensOutput := true
  malloc _ := true
  ftruncate _ := true
  pread _ _ := some 2
  pwrite _ _ := some 2
  seeks := true
  fsync := true
  fstat := true
  pageSize := 4096

theorem exampleHost_healthy : exampleHost.Healthy :=
  ⟨rfl, rfl, fun _ => rfl, fun _ => rfl, fun _ _ => rfl, fun _ _ => rfl, rfl, rfl, by decide⟩

def exampleInput : Sparse where
  size := 2097157
  byte i := if i < 1048576 ∨ 2097152 ≤ i then .ofNat (i + 7) else 0
  data i := i < 1048576 ∨ 2097152 ≤ i
  hole_zero i _ hi := if_neg (of_decide_eq_false hi)
  size_lt := by decide

theorem hole_and_data_round_trip :
    ∃ container, compressFile exampleHost rawZstd exampleInput none = some container ∧
      (∃ f, (decompressFile exampleHost rawZstd container none).code = 0 ∧
        (decompressFile exampleHost rawZstd container none).output = some f ∧ f.Same exampleInput.toImage) ∧
      (entryOf container 1).encoding = encodingHole ∧ (entryOf container 0).Disjoint (entryOf container 2) := by
  obtain ⟨container, hc⟩ : ∃ container, compressFile exampleHost rawZstd exampleInput none = some container :=
    compressFile_succeeds exampleHost_healthy rfl rawZstd_lawful rawZstd_total (by decide)
  obtain ⟨hround, hentry, hdisjoint⟩ :=
    page_snapshot_round_trip exampleHost exampleHost rawZstd rawZstd_lawful exampleHost_healthy
    exampleInput none container hc
  have hcount : (Header.parse (container.slice 0 64)).chunkCount.toNat = 3 := by
    rw [(compressFile_container rawZstd_lawful hc).header, Header.parse_bytes _ rfl]
    rfl
  rw [hcount] at hentry hdisjoint
  have hdata : ∀ i < 3, ∀ k, i * 1048576 ≤ k → k < (i + 1) * 1048576 → k < 2097157 → exampleInput.byte k ≠ 0 →
      (entryOf container i).encoding = encodingZstd := by
    intro i hi k hk hk' hsize hbyte
    have hnonzero : ¬ ZeroChunk exampleInput.toImage i := fun hz => hbyte (hz k hk hk' hsize)
    exact ((hentry i hi).2 fun hhole => hnonzero ((hentry i hi).1.1 hhole)).1
  have hfirst := hdata 0 (by decide) 0 (by decide) (by decide) (by decide) (by decide)
  have hlast := hdata 2 (by decide) 2097152 (by decide) (by decide) (by decide) (by decide)
  have hhole : ZeroChunk exampleInput.toImage 1 := by
    intro k hk hk' _
    refine if_neg ?_
    change 1 * 1048576 ≤ k at hk
    change k < 2 * 1048576 at hk'
    omega
  exact ⟨container, hc, hround, (hentry 1 (by decide)).1.2 hhole,
    hdisjoint 0 2 (by decide) (by decide) (by decide) hfirst hlast⟩

end ClawBox.PageSnapshot
