import ClawBox.PageSnapshot.Safety

namespace ClawBox.PageSnapshot

open SparseFile

variable {host : Host} {zstd : Zstd}

namespace Host

theorem writeLoop_eq_some {f g : Image} {fuel : ℕ} {data : Bytes} {offset : ℤ}
    (h : host.writeLoop fuel f data offset = some g) :
    g = f.write offset.toNat data ∧ (data ≠ [] → 0 ≤ offset ∧ offset + data.length ≤ pwriteLimit) := by
  induction fuel generalizing f data offset with
  | zero =>
    cases data with
    | nil =>
      cases h
      exact ⟨rfl, fun h => absurd rfl h⟩
    | cons b bs => cases h
  | succ fuel ih =>
    cases data with
    | nil =>
      cases h
      exact ⟨rfl, fun h => absurd rfl h⟩
    | cons b bs =>
      rw [writeLoop] at h
      swap
      · exact List.cons_ne_nil b bs
      split at h
      · cases h
      rename_i hoff
      split at h
      · cases h
      rename_i wish hp
      dsimp only at h
      obtain ⟨rfl, hrange⟩ := ih h
      generalize hd : b :: bs = data at *
      have hlen : data.length ≠ 0 := by simp [← hd]
      generalize hg : min (max wish 1) (min data.length (pwriteLimit - offset.toNat)) = written at *
      have htake : (data.take written).length = written := by
        rw [List.length_take]
        omega
      have hnat : (offset + written).toNat = offset.toNat + (data.take written).length := by omega
      rw [hnat, Image.write_append, List.take_append_drop]
      refine ⟨rfl, fun _ => ⟨by omega, ?_⟩⟩
      by_cases hz : data.drop written = []
      · have := List.drop_eq_nil_iff.mp hz
        omega
      · have := (hrange hz).2
        rw [List.length_drop] at this
        omega

theorem writeFull_eq_some {f g : Image} {data : Bytes} {offset : ℤ} (h : host.writeFull f data offset = some g) :
    g = f.write offset.toNat data ∧ (data ≠ [] → 0 ≤ offset ∧ offset + data.length ≤ pwriteLimit) :=
  writeLoop_eq_some h

theorem truncateFile_eq_some {f g : Image} {length : ℤ} (h : host.truncateFile f length = some g) :
    0 ≤ length ∧ g = f.truncate length.toNat := by
  unfold truncateFile at h
  split at h
  · cases h
  · rename_i hneg
    cases h
    constructor
    · by_contra hlt
      exact hneg (.inl (by omega))
    · rfl

end Host

/-- What the code relies on: frames are not empty, stay within the bound, and are undone. -/
structure Zstd.Lawful (zstd : Zstd) : Prop where
  bound : ∀ n, zstd.compressBound n ≤ n + n / 256 + 64
  length : ∀ capacity src frame, zstd.compress capacity src = some frame → 0 < frame.length ∧ frame.length ≤ capacity
  inverse : ∀ capacity src frame, zstd.compress capacity src = some frame → zstd.decompress src.length frame = some src

theorem allZero_iff {bs : Bytes} : allZero bs = true ↔ ∀ b ∈ bs, b = 0 := by simp [allZero]

theorem allZero_slice {f : Image} {offset count : ℕ} :
    allZero (f.slice offset count) = true ↔ ∀ k < count, f.byte (offset + k) = 0 := by
  simp [allZero, Image.slice]

def chunkOf (input : Image) (h : Header) (i : ℕ) : Bytes :=
  input.slice (i * h.chunkSize.toNat) (h.valid (.ofNat i)).toNat

structure Stored (zstd : Zstd) (input : Image) (h : Header) (f : Image) (limit i : ℕ) (e : Entry) : Prop where
  encoding : e.encoding = encodingZstd
  nonzero : allZero (chunkOf input h i) = false
  length_pos : 0 < e.length.toNat
  after : h.dataOffset.toNat ≤ e.offset.toNat
  within : e.offset.toNat + e.length.toNat ≤ limit
  decodes : zstd.decompress (h.valid (.ofNat i)).toNat (f.slice e.offset.toNat e.length.toNat) =
    some (chunkOf input h i)

def Encodes (zstd : Zstd) (input : Image) (h : Header) (f : Image) (limit i : ℕ) (e : Entry) : Prop :=
  e = {} ∧ allZero (chunkOf input h i) = true ∨ Stored zstd input h f limit i e

def Apart (entries : ℕ → Entry) : Prop :=
  ∀ i j, i < j → (entries i).encoding = encodingZstd → (entries j).encoding = encodingZstd →
    (entries i).offset.toNat + (entries i).length.toNat ≤ (entries j).offset.toNat

structure Packed (zstd : Zstd) (input : Image) (h : Header) (done : ℕ) (p : Packing) : Prop where
  length : p.entries.length = h.chunkCount.toNat
  room : h.dataOffset.toNat + p.payload.toNat < 2 ^ 63
  size : p.output.size = h.dataOffset.toNat + p.payload.toNat
  header : p.output.slice 0 64 = h.bytes
  entry : ∀ i < done, Encodes zstd input h p.output (h.dataOffset.toNat + p.payload.toNat) i (p.entries.getD i {})
  rest : ∀ i, done ≤ i → p.entries.getD i {} = {}
  apart : Apart fun i => p.entries.getD i {}

theorem Packed.skip {input : Image} {h : Header} {i : ℕ} {p : Packing} (hp : Packed zstd input h i p)
    (hz : allZero (chunkOf input h i) = true) : Packed zstd input h (i + 1) p where
  length := hp.length
  room := hp.room
  size := hp.size
  header := hp.header
  entry := by
    intro j hj
    rcases Nat.lt_succ_iff_lt_or_eq.mp hj with hj | rfl
    · exact hp.entry j hj
    · exact .inl ⟨hp.rest j le_rfl, hz⟩
  rest := fun j hj => hp.rest j (by omega)
  apart := hp.apart

theorem Stored.write {input : Image} {h : Header} {f : Image} {limit i : ℕ} {e : Entry}
    (hs : Stored zstd input h f limit i e) {offset limit' : ℕ} {data : Bytes} (hsize : limit ≤ f.size)
    (hlimit : limit ≤ limit') (hd : limit ≤ offset ∨ offset + data.length ≤ h.dataOffset.toNat) :
    Stored zstd input h (f.write offset data) limit' i e where
  encoding := hs.encoding
  nonzero := hs.nonzero
  length_pos := hs.length_pos
  after := hs.after
  within := hs.within.trans hlimit
  decodes := by
    have hin := hs.within
    have hafter := hs.after
    rw [Image.slice_write_disjoint (by omega) (by omega)]
    exact hs.decodes

theorem Packed.store {input : Image} {h : Header} {i : ℕ} {p : Packing} (hp : Packed zstd input h i p)
    (hlaw : zstd.Lawful) (hi : i < h.chunkCount.toNat) (hn : allZero (chunkOf input h i) = false)
    (hd : 64 ≤ h.dataOffset.toNat) {capacity : ℕ} {frame : Bytes}
    (hc : zstd.compress capacity (chunkOf input h i) = some frame) (hsmall : frame.length < 2 ^ 32)
    (hroom : h.dataOffset.toNat + p.payload.toNat + frame.length < 2 ^ 63) :
    Packed zstd input h (i + 1)
      ⟨p.output.write (h.dataOffset.toNat + p.payload.toNat) frame,
        p.entries.set i ⟨h.dataOffset + p.payload, .ofNat frame.length, encodingZstd⟩,
        p.payload + .ofNat frame.length⟩ := by
  obtain ⟨hpos, -⟩ := hlaw.length _ _ _ hc
  have hne : frame ≠ [] := List.ne_nil_of_length_pos hpos
  have htarget : (h.dataOffset + p.payload).toNat = h.dataOffset.toNat + p.payload.toNat := by
    rw [UInt64.toNat_add]
    omega
  have hlen32 : (UInt32.ofNat frame.length).toNat = frame.length := by
    rw [UInt32.toNat_ofNat']
    omega
  have hpay : (p.payload + UInt64.ofNat frame.length).toNat = p.payload.toNat + frame.length := by
    rw [UInt64.toNat_add, UInt64.toNat_ofNat']
    omega
  have hget : ∀ j, (p.entries.set i ⟨h.dataOffset + p.payload, .ofNat frame.length, encodingZstd⟩).getD j {} =
      if j = i then ⟨h.dataOffset + p.payload, .ofNat frame.length, encodingZstd⟩ else p.entries.getD j {} := by
    intro j
    simp only [List.getD_eq_getElem?_getD, List.getElem?_set]
    by_cases hji : j = i
    · subst hji
      simp [hp.length, hi]
    · rw [if_neg (fun he => hji he.symm), if_neg hji]
  have hstored : Stored zstd input h (p.output.write (h.dataOffset.toNat + p.payload.toNat) frame)
      (h.dataOffset.toNat + (p.payload.toNat + frame.length)) i ⟨h.dataOffset + p.payload, .ofNat frame.length,
        encodingZstd⟩ := by
    refine ⟨rfl, hn, by simpa [hlen32] using hpos, by simp [htarget], by simp [htarget, hlen32]; omega, ?_⟩
    simp only [htarget, hlen32, Image.slice_write_self]
    have := hlaw.inverse _ _ _ hc
    simpa [chunkOf] using this
  constructor
  · simpa using hp.length
  · rw [hpay]
    omega
  · rw [Image.size_write hne, hp.size, hpay]
    omega
  · rw [Image.slice_write_disjoint (by have := hp.size; omega) (by omega)]
    exact hp.header
  · intro j hj
    rw [hget, hpay]
    split
    · rename_i hji
      subst hji
      exact .inr hstored
    · rcases hp.entry j (by omega) with he | hs
      · exact .inl he
      · exact .inr (hs.write hp.size.ge (by omega) (.inl le_rfl))
  · intro j hj
    rw [hget, if_neg (by omega)]
    exact hp.rest j (by omega)
  · intro j k hjk
    simp only [hget]
    split
    · -- a later entry is still empty
      rename_i hji
      rw [if_neg (by omega), hp.rest k (by omega)]
      intro _ habs
      simp [encodingHole, encodingZstd] at habs
    · split
      · rename_i hki
        subst hki
        intro hj _
        rw [htarget]
        rcases hp.entry j hjk with ⟨he, -⟩ | hs
        · rw [he] at hj
          simp [encodingHole, encodingZstd] at hj
        · exact hs.within
      · exact hp.apart j k hjk

section Header

variable {input : Sparse}

theorem toNat_size (input : Sparse) : (UInt64.ofNat input.size).toNat = input.size := by
  have := input.size_lt
  rw [UInt64.toNat_ofNat']
  omega

theorem headerOf_wellFormed (size : UInt64) : (headerOf size).wellFormed = true := by
  simp [Header.wellFormed, headerOf, Header.chunk, chunkBytes]

theorem toNat_logicalSize (input : Sparse) : (headerOf (.ofNat input.size)).logicalSize.toNat = input.size :=
  toNat_size input

theorem logicalSize_lt (input : Sparse) : (headerOf (.ofNat input.size)).logicalSize.toNat < 2 ^ 63 := by
  rw [toNat_logicalSize]
  exact input.size_lt

theorem headerOf_chunkCount (input : Sparse) :
    (headerOf (.ofNat input.size)).chunkCount.toNat = (input.size + chunkBytes.toNat - 1) / chunkBytes.toNat := by
  have h := Header.toNat_chunkCount (h := headerOf (.ofNat input.size)) (by simp [headerOf, chunkBytes]) rfl
    (logicalSize_lt input)
  rw [toNat_logicalSize] at h
  exact h

theorem headerOf_fits (input : Sparse) : Fits (headerOf (.ofNat input.size)) := by
  apply Header.fits (headerOf_wellFormed _) (logicalSize_lt input)
  rw [UInt64.le_iff_toNat_le, headerOf_chunkCount]
  have := input.size_lt
  change (input.size + 1048576 - 1) / 1048576 ≤ 1152921504606846975
  omega

theorem toNat_dataOffset (input : Sparse) :
    (headerOf (.ofNat input.size)).dataOffset.toNat = 64 + (headerOf (.ofNat input.size)).chunkCount.toNat * 16 := by
  have hcount := headerOf_chunkCount input
  have hlt := input.size_lt
  change _ = (input.size + 1048576 - 1) / 1048576 at hcount
  change (headerSize + (headerOf (.ofNat input.size)).chunkCount * entrySize).toNat = _
  rw [UInt64.toNat_add, (headerOf_fits input).index]
  change (64 + _) % 2 ^ 64 = _
  omega

theorem validFrom_eq {h : Header} (hc : h.chunkSize = chunkBytes) (i : ℕ) :
    validFrom h (.ofNat i * chunkBytes.toUInt64) = h.valid (.ofNat i) := by
  simp only [validFrom, Header.valid, Header.chunk, hc, UInt64.add_mul, UInt64.one_mul]

end Header

section Encode

variable {input : Sparse} {p q : Packing} {i : ℕ}

theorem chunkOf_zero_of_hole {h : Header} {start : ℕ} (hstart : start = i * h.chunkSize.toNat)
    (hend : start + (h.valid (.ofNat i)).toNat ≤ input.size)
    (hhole : ∀ k, start ≤ k → k < start + (h.valid (.ofNat i)).toNat → input.data k = false) :
    allZero (chunkOf input.toImage h i) = true := by
  rw [chunkOf, allZero_slice]
  subst hstart
  intro k hk
  exact input.hole_zero _ (by omega) (hhole _ (by omega) (by omega))

theorem encodeAt_cases {h : Header} {position : UInt64} {valid : ℕ} {more : Bool}
    (he : encodeAt host zstd input h position valid p = some (q, more)) :
    (input.seekData position.toNat = none ∧ q = p ∧ more = false) ∨
    (∃ data, input.seekData position.toNat = some data ∧ position.toNat + valid ≤ data ∧ q = p ∧
      more = true) ∨
    (∃ page, host.readFull input.toImage valid (offT position) = some page ∧ allZero page = true ∧
      q = p ∧ more = true) ∨
    ∃ page frame output, host.readFull input.toImage valid (offT position) = some page ∧
      allZero page = false ∧ zstd.compress (zstd.compressBound valid) page = some frame ∧
      host.writeFull p.output frame (offT (h.dataOffset + p.payload)) = some output ∧
      q = ⟨output, p.entries.set (position / chunkBytes.toUInt64).toNat
        ⟨h.dataOffset + p.payload, .ofNat frame.length, encodingZstd⟩, p.payload + .ofNat frame.length⟩ ∧
        more = true := by
  unfold encodeAt at he
  split at he
  · cases he
  split at he
  · rename_i hseek
    simp only [Option.some.injEq, Prod.mk.injEq] at he
    exact .inl ⟨hseek, he.1.symm, he.2.symm⟩
  rename_i data hseek
  split at he
  · rename_i hfar
    simp only [Option.some.injEq, Prod.mk.injEq] at he
    exact .inr (.inl ⟨data, hseek, hfar, he.1.symm, he.2.symm⟩)
  split at he
  · cases he
  rename_i page hpage
  split at he
  · rename_i hzero
    simp only [Option.some.injEq, Prod.mk.injEq] at he
    exact .inr (.inr (.inl ⟨page, hpage, hzero, he.1.symm, he.2.symm⟩))
  rename_i hzero
  split at he
  · cases he
  rename_i frame hframe
  split at he
  · cases he
  rename_i output houtput
  simp only [Option.some.injEq, Prod.mk.injEq] at he
  exact .inr (.inr (.inr ⟨page, frame, output, hpage, by simpa using hzero, hframe, houtput, he.1.symm, he.2.symm⟩))

theorem encodeChunk_packed (hlaw : zstd.Lawful) (hi : i < (headerOf (.ofNat input.size)).chunkCount.toNat) {more : Bool}
    (hp : Packed zstd input.toImage (headerOf (.ofNat input.size)) i p)
    (he : encodeChunk host zstd input (headerOf (.ofNat input.size)) (.ofNat i * chunkBytes.toUInt64) p =
      some (q, more)) :
    Packed zstd input.toImage (headerOf (.ofNat input.size)) (i + 1) q ∧ (more = false →
      ∀ k, i * (headerOf (.ofNat input.size)).chunkSize.toNat ≤ k → k < input.size → input.data k = false) := by
  have hfits := headerOf_fits input
  have hdata := toNat_dataOffset input
  have hlogical := toNat_logicalSize input
  have hvalid := validFrom_eq (h := headerOf (.ofNat input.size)) rfl i
  have hchunk : (headerOf (.ofNat input.size)).chunkSize.toNat = 1048576 := rfl
  have hstart : (UInt64.ofNat i * chunkBytes.toUInt64).toNat = i * (headerOf (.ofNat input.size)).chunkSize.toNat :=
    hfits.start i hi
  have hindex : (UInt64.ofNat i * chunkBytes.toUInt64 / chunkBytes.toUInt64).toNat = i := by
    have hword : chunkBytes.toUInt64.toNat = 1048576 := rfl
    rw [UInt64.toNat_div, hstart, hword, hchunk]
    exact Nat.mul_div_cancel i (by decide)
  obtain ⟨hpos, hle, hend⟩ := hfits.valid i hi
  rw [hlogical] at hend
  rw [encodeChunk, hvalid] at he
  generalize headerOf (.ofNat input.size) = h at *
  generalize UInt64.ofNat i * chunkBytes.toUInt64 = position at *
  have hoff : (offT position).toNat = i * h.chunkSize.toNat := by
    have := input.size_lt
    rw [offT_of_lt (by omega), hstart, Int.toNat_natCast]
  rcases encodeAt_cases he with ⟨hseek, rfl, rfl⟩ | ⟨data, hseek, hfar, rfl, rfl⟩ | ⟨page, hpage, hzero, rfl, rfl⟩ |
    ⟨page, frame, output, hpage, hzero, hframe, houtput, rfl, rfl⟩
  · -- `ENXIO`: the rest of the file is one hole
    rw [hstart] at hseek
    have hrest : ∀ k, i * h.chunkSize.toNat ≤ k → k < input.size → input.data k = false :=
      fun k hk hlt => Sparse.seekData_eq_none hseek hk hlt
    refine ⟨hp.skip (chunkOf_zero_of_hole rfl hend fun k hk hk' => hrest k hk (by omega)), fun _ => hrest⟩
  · rw [hstart] at hseek hfar
    obtain ⟨-, -, -, hbefore⟩ := Sparse.seekData_eq_some hseek
    exact ⟨hp.skip (chunkOf_zero_of_hole rfl hend fun k hk hk' => hbefore k hk (by omega)), nofun⟩
  · have hread := (Host.readFull_eq_some hpage).1
    rw [hoff] at hread
    subst hread
    exact ⟨hp.skip hzero, nofun⟩
  · have hread := (Host.readFull_eq_some hpage).1
    rw [hoff] at hread
    subst hread
    obtain ⟨hlen, hcap⟩ := hlaw.length _ _ _ hframe
    have hbound := hlaw.bound (h.valid (.ofNat i)).toNat
    obtain ⟨rfl, hlimit⟩ := Host.writeFull_eq_some houtput
    have hroom := hp.room
    have hofft : offT (h.dataOffset + p.payload) = (h.dataOffset.toNat + p.payload.toNat : ℕ) := by
      have htarget : (h.dataOffset + p.payload).toNat = h.dataOffset.toNat + p.payload.toNat := by
        rw [UInt64.toNat_add]
        omega
      rw [offT_of_lt (by omega), htarget]
    have hlim := (hlimit (List.ne_nil_of_length_pos hlen)).2
    rw [hofft] at hlim
    have hfits63 : h.dataOffset.toNat + p.payload.toNat + frame.length < 2 ^ 63 := by
      simp only [Host.pwriteLimit] at hlim
      omega
    rw [hofft, hindex, Int.toNat_natCast]
    exact ⟨hp.store hlaw hi hzero (by omega) hframe (by omega) hfits63, nofun⟩

theorem Packed.skip_all {h : Header} {n : ℕ} (hp : Packed zstd input.toImage h i p) (hn : i ≤ n)
    (hz : ∀ j, i ≤ j → j < n → allZero (chunkOf input.toImage h j) = true) : Packed zstd input.toImage h n p := by
  induction n, hn using Nat.le_induction with
  | base => exact hp
  | succ n hin ih =>
    have hprev := ih fun j hj hjn => hz j hj (by omega)
    exact hprev.skip (hz n hin (Nat.lt_succ_self n))

theorem encodeChunks_packed (hlaw : zstd.Lawful) {m : ℕ}
    (hn : i + m = (headerOf (.ofNat input.size)).chunkCount.toNat)
    (hp : Packed zstd input.toImage (headerOf (.ofNat input.size)) i p)
    (he : encodeChunks host zstd input (headerOf (.ofNat input.size)) (List.range' i m) p = some q) :
    Packed zstd input.toImage (headerOf (.ofNat input.size)) (headerOf (.ofNat input.size)).chunkCount.toNat q := by
  induction m generalizing i p with
  | zero =>
    cases he
    rw [← hn]
    exact hp
  | succ m ih =>
    rw [List.range'_succ, encodeChunks] at he
    split at he
    · cases he
    · rename_i r hr
      cases he
      obtain ⟨hpacked, hstop⟩ := encodeChunk_packed hlaw (by omega) hp hr
      refine hpacked.skip_all (by omega) ?_
      intro j hj hjn
      obtain ⟨-, -, hend⟩ := (headerOf_fits input).valid j hjn
      rw [toNat_logicalSize] at hend
      refine chunkOf_zero_of_hole rfl hend fun k hk hk' => hstop rfl k ?_ (hk'.trans_le hend)
      exact (Nat.mul_le_mul_right _ (by omega)).trans hk
    · rename_i r hr
      exact ih (by omega) (encodeChunk_packed hlaw (by omega) hp hr).1 he

end Encode

structure Container (zstd : Zstd) (input : Image) (h : Header) (f : Image) : Prop where
  header : f.slice 0 64 = h.bytes
  covers : h.dataOffset.toNat ≤ f.size
  small : f.size < 2 ^ 63
  entry : ∀ i < h.chunkCount.toNat, Encodes zstd input h f f.size i (Entry.parse (f.slice (64 + i * 16) 16))
  apart : ∀ i j, i < j → j < h.chunkCount.toNat → (Entry.parse (f.slice (64 + i * 16) 16)).encoding = encodingZstd →
    (Entry.parse (f.slice (64 + j * 16) 16)).encoding = encodingZstd →
    (Entry.parse (f.slice (64 + i * 16) 16)).offset.toNat + (Entry.parse (f.slice (64 + i * 16) 16)).length.toNat ≤
      (Entry.parse (f.slice (64 + j * 16) 16)).offset.toNat

theorem length_indexBytes (entries : List Entry) : (entries.flatMap Entry.bytes).length = entries.length * 16 := by
  induction entries with
  | nil => rfl
  | cons e es ih => simp [Entry.length_bytes, ih, Nat.add_mul, Nat.add_comm]

theorem take_drop_indexBytes {entries : List Entry} {i : ℕ} (hi : i < entries.length) :
    ((entries.flatMap Entry.bytes).drop (i * 16)).take 16 = (entries.getD i {}).bytes := by
  induction entries generalizing i with
  | nil => cases hi
  | cons e es ih =>
    rw [List.flatMap_cons]
    cases i with
    | zero =>
      rw [Nat.zero_mul, List.drop_zero, List.take_append_of_le_length (e.length_bytes.ge),
        List.take_of_length_le e.length_bytes.le]
      rfl
    | succ i =>
      have hdrop : (i + 1) * 16 = e.bytes.length + i * 16 := by
        rw [Entry.length_bytes]
        omega
      rw [hdrop, ← List.drop_drop, List.drop_left, List.getD_cons_succ]
      exact ih (Nat.lt_of_succ_lt_succ hi)

theorem Stored.congr {input : Image} {h : Header} {f g : Image} {limit limit' i : ℕ} {e : Entry}
    (hs : Stored zstd input h f limit i e) (hlimit : limit ≤ limit') (hbyte : ∀ k < limit, f.byte k = g.byte k) :
    Stored zstd input h g limit' i e where
  encoding := hs.encoding
  nonzero := hs.nonzero
  length_pos := hs.length_pos
  after := hs.after
  within := hs.within.trans hlimit
  decodes := by
    have hin := hs.within
    rw [← Image.slice_congr fun k hk => hbyte _ (by omega)]
    exact hs.decodes

theorem Packed.container {input : Image} {h : Header} {p : Packing} (hp : Packed zstd input h h.chunkCount.toNat p)
    (hd : h.dataOffset.toNat = 64 + h.chunkCount.toNat * 16) :
    Container zstd input h
    ((p.output.write 64 (p.entries.flatMap Entry.bytes)).truncate (h.dataOffset.toNat + p.payload.toNat)) := by
  generalize hlimit : h.dataOffset.toNat + p.payload.toNat = limit
  have hsize : p.output.size = limit := by rw [hp.size, hlimit]
  have hlen : (p.entries.flatMap Entry.bytes).length = h.chunkCount.toNat * 16 := by rw [length_indexBytes, hp.length]
  generalize hg : p.output.write 64 (p.entries.flatMap Entry.bytes) = g
  have hgs : g.size = limit := by
    rw [← hg]
    by_cases hz : p.entries.flatMap Entry.bytes = []
    · rw [hz]
      exact hsize
    · rw [Image.size_write hz, hlen]
      omega
  have hbyte : ∀ k < limit, g.byte k = (g.truncate limit).byte k := by
    intro k hk
    simp [Image.truncate, hgs, hk]
  have hslice : ∀ start count, start + count ≤ limit → (g.truncate limit).slice start count = g.slice start count :=
    fun start count hle => Image.slice_congr fun k hk => (hbyte _ (by omega)).symm
  have hindex : ∀ i < h.chunkCount.toNat, Entry.parse ((g.truncate limit).slice (64 + i * 16) 16) =
      p.entries.getD i {} := by
    intro i hi
    have hself : g.slice 64 (h.chunkCount.toNat * 16) = p.entries.flatMap Entry.bytes := by
      rw [← hg, ← hlen]
      exact Image.slice_write_self
    have hpart : ((g.slice 64 (h.chunkCount.toNat * 16)).drop (i * 16)).take 16 = g.slice (64 + i * 16) 16 :=
      Image.take_drop_slice (by omega)
    rw [hslice _ _ (by omega), ← hpart, hself, take_drop_indexBytes (by rw [hp.length]; exact hi), Entry.parse_bytes]
  have hold : ∀ i e, Stored zstd input h p.output limit i e → Stored zstd input h (g.truncate limit) limit i e := by
    intro i e hs
    rw [← hg] at hbyte ⊢
    exact (hs.write hsize.ge le_rfl (.inr (by rw [hlen, hd]))).congr le_rfl hbyte
  constructor
  · rw [hslice 0 64 (by omega), ← hg, Image.slice_write_disjoint (by omega) (.inl (by omega))]
    exact hp.header
  · change h.dataOffset.toNat ≤ limit
    omega
  · change limit < 2 ^ 63
    rw [← hlimit]
    exact hp.room
  · intro i hi
    rw [hindex i hi]
    rcases hp.entry i hi with he | hs
    · exact .inl he
    · rw [hlimit] at hs
      exact .inr (hold i _ hs)
  · intro i j hij hj
    rw [hindex i (hij.trans hj), hindex j hj]
    exact hp.apart i j hij

theorem packed_start {input : Image} {h : Header} (hm : h.magic.length = 8) (hd : 64 ≤ h.dataOffset.toNat)
    (hlt : h.dataOffset.toNat < 2 ^ 63) :
    Packed zstd input h 0
      ⟨(Image.empty.truncate h.dataOffset.toNat).write 0 h.bytes, List.replicate h.chunkCount.toNat {}, 0⟩ := by
  have hbytes := h.length_bytes hm
  have hget : ∀ i, (List.replicate h.chunkCount.toNat ({} : Entry)).getD i {} = {} := by
    intro i
    simp only [List.getD_eq_getElem?_getD, List.getElem?_replicate]
    split <;> rfl
  constructor
  · simp
  · simpa using hlt
  · rw [Image.size_write (List.ne_nil_of_length_pos (by omega)), hbytes]
    change max h.dataOffset.toNat (0 + 64) = h.dataOffset.toNat + 0
    omega
  · have hself : ((Image.empty.truncate h.dataOffset.toNat).write 0 h.bytes).slice 0 h.bytes.length = h.bytes :=
      Image.slice_write_self
    rw [hbytes] at hself
    exact hself
  · nofun
  · exact fun i _ => hget i
  · intro i j _ hi
    simp only [hget] at hi
    exact absurd hi (by decide)

theorem compressFile_container (hlaw : zstd.Lawful) {input : Sparse} {previous : Option Image} {f : Image}
    (hf : compressFile host zstd input previous = some f) :
    Container zstd input.toImage (headerOf (.ofNat input.size)) f := by
  have hd := toNat_dataOffset input
  have hcount := headerOf_chunkCount input
  have hlt := input.size_lt
  have hchunk : chunkBytes.toNat = 1048576 := rfl
  rw [hchunk] at hcount
  unfold compressFile at hf
  simp only [Option.bind_eq_bind, Option.bind_eq_some_iff, Option.guard_eq_some', Option.pure_def] at hf
  obtain ⟨-, -, -, -, -, -, -, -, f₁, hf₁, f₂, hf₂, p, hp, f₃, hf₃, f₄, hf₄, -, -, hf⟩ := hf
  cases hf
  obtain ⟨-, rfl⟩ := Host.truncateFile_eq_some hf₁
  obtain ⟨rfl, -⟩ := Host.writeFull_eq_some hf₂
  obtain ⟨rfl, -⟩ := Host.writeFull_eq_some hf₃
  obtain ⟨-, rfl⟩ := Host.truncateFile_eq_some hf₄
  have hoff : offT (headerOf (.ofNat input.size)).dataOffset = ((headerOf (.ofNat input.size)).dataOffset.toNat : ℤ) :=
    offT_of_lt (by omega)
  rw [List.range_eq_range', hoff, Int.toNat_natCast] at hp
  have hpacked := encodeChunks_packed hlaw (by omega) (packed_start rfl (by omega) (by omega)) hp
  have hroom := hpacked.room
  have hsum : ((headerOf (.ofNat input.size)).dataOffset + p.payload).toNat =
      (headerOf (.ofNat input.size)).dataOffset.toNat + p.payload.toNat := by
    rw [UInt64.toNat_add]
    omega
  have hend : offT ((headerOf (.ofNat input.size)).dataOffset + p.payload) =
      (((headerOf (.ofNat input.size)).dataOffset.toNat + p.payload.toNat : ℕ) : ℤ) := by
    rw [offT_of_lt (by omega), hsum]
  have hindex : (offT (headerOf (.ofNat input.size)).indexOffset).toNat = 64 := rfl
  rw [hend, Int.toNat_natCast, hindex]
  exact hpacked.container hd

end ClawBox.PageSnapshot
