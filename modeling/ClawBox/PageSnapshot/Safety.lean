import ClawBox.PageSnapshot.Codec
import Mathlib.Tactic.Ring

namespace ClawBox.PageSnapshot

open SparseFile Raising Work

variable {host : Host} {zstd : Zstd}

namespace Host

theorem readLoop_eq_some {f : Image} {fuel size : ℕ} {offset : ℤ} {bs : Bytes}
    (h : host.readLoop f fuel size offset = some bs) :
    bs = f.slice offset.toNat size ∧ (size ≠ 0 → 0 ≤ offset ∧ offset + size ≤ f.size) := by
  induction fuel generalizing size offset bs with
  | zero =>
    cases size with
    | zero =>
      cases h
      exact ⟨rfl, fun h => absurd rfl h⟩
    | succ size => cases h
  | succ fuel ih =>
    cases size with
    | zero =>
      cases h
      exact ⟨rfl, fun h => absurd rfl h⟩
    | succ size =>
      rw [readLoop] at h
      split at h
      · cases h
      rename_i hoff
      split at h
      · cases h
      rename_i wish hp
      dsimp only at h
      split at h
      · cases h
      rename_i hgot
      obtain ⟨rest, hrest, rfl⟩ := Option.map_eq_some_iff.mp h
      obtain ⟨rfl, hrange⟩ := ih hrest
      generalize hg : min (max wish 1) (min (size + 1) (f.size - offset.toNat)) = got at *
      have hnat : (offset + got).toNat = offset.toNat + got := by omega
      rw [hnat, Image.slice_append]
      have hsum : got + (size + 1 - got) = size + 1 := by omega
      rw [hsum]
      refine ⟨rfl, fun _ => ⟨by omega, ?_⟩⟩
      rcases Nat.eq_zero_or_pos (size + 1 - got) with hz | hz
      · omega
      · have := (hrange (by omega)).2
        omega

theorem readFull_eq_some {f : Image} {size : ℕ} {offset : ℤ} {bs : Bytes} (h : host.readFull f size offset = some bs) :
    bs = f.slice offset.toNat size ∧ (size ≠ 0 → 0 ≤ offset ∧ offset + size ≤ f.size) :=
  readLoop_eq_some h

end Host

/-- The header fields are consistent as numbers, and none of the products of the chunk loop wraps. -/
structure Fits (h : Header) : Prop where
  index : (h.chunkCount * entrySize).toNat = h.chunkCount.toNat * 16
  start : ∀ i < h.chunkCount.toNat, (UInt64.ofNat i * h.chunk).toNat = i * h.chunkSize.toNat
  stop : ∀ i < h.chunkCount.toNat, ((UInt64.ofNat i + 1) * h.chunk).toNat = (i + 1) * h.chunkSize.toNat
  valid : ∀ i < h.chunkCount.toNat, 0 < (h.valid (.ofNat i)).toNat ∧ (h.valid (.ofNat i)).toNat ≤ h.chunkSize.toNat ∧
    i * h.chunkSize.toNat + (h.valid (.ofNat i)).toNat ≤ h.logicalSize.toNat

theorem offT_nonneg {x : UInt64} (h : 0 ≤ offT x) : x.toNat < 2 ^ 63 := by
  unfold offT at h
  split at h
  · assumption
  · have := x.toNat_lt
    omega

theorem offT_of_lt {x : UInt64} (h : x.toNat < 2 ^ 63) : offT x = x.toNat := if_pos h

namespace Header

variable {h : Header}

theorem toNat_chunk : h.chunk.toNat = h.chunkSize.toNat := by simp [chunk]

theorem chunkSize_lt : h.chunkSize.toNat < 2 ^ 32 := h.chunkSize.toNat_lt

theorem toNat_chunkCount (hc : h.chunkSize ≠ 0) (hn : h.chunkCount = (h.logicalSize + h.chunk - 1) / h.chunk)
    (hl : h.logicalSize.toNat < 2 ^ 63) :
    h.chunkCount.toNat = (h.logicalSize.toNat + h.chunkSize.toNat - 1) / h.chunkSize.toNat := by
  have hlt := h.chunkSize_lt
  have hpos : 0 < h.chunkSize.toNat := by
    rcases Nat.eq_zero_or_pos h.chunkSize.toNat with hz | hz
    · exact absurd (UInt32.toNat_inj.mp hz) hc
    · exact hz
  have hsum : (h.logicalSize + h.chunk - 1).toNat = h.logicalSize.toNat + h.chunkSize.toNat - 1 := by
    rw [UInt64.toNat_sub, UInt64.toNat_add, toNat_chunk]
    simp only [UInt64.toNat_one]
    omega
  rw [hn, UInt64.toNat_div, hsum, toNat_chunk]

theorem fits (hw : h.wellFormed = true) (hl : h.logicalSize.toNat < 2 ^ 63)
    (hcount : h.chunkCount ≤ sizeMax / entrySize) :
    Fits h := by
  simp only [wellFormed, decide_eq_true_eq] at hw
  obtain ⟨-, -, hc, hn, -, -⟩ := hw
  have hlt := h.chunkSize_lt
  have hcount' : h.chunkCount.toNat ≤ 2 ^ 60 - 1 := by
    have := UInt64.le_iff_toNat_le.mp hcount
    simpa [sizeMax, entrySize] using this
  have hnum := toNat_chunkCount hc hn hl
  generalize hL : h.logicalSize.toNat = L at *
  generalize hC : h.chunkSize.toNat = c at *
  generalize hN : h.chunkCount.toNat = n at *
  have hbound : ∀ i < n, (i + 1) * c ≤ L + c - 1 := by
    intro i hi
    calc (i + 1) * c ≤ n * c := Nat.mul_le_mul_right c hi
      _ ≤ L + c - 1 := by
        rw [hnum]
        exact Nat.div_mul_le_self _ _
  have hpos : 0 < c := by
    rcases Nat.eq_zero_or_pos c with rfl | hz
    · exact absurd (UInt32.toNat_inj.mp hC) hc
    · exact hz
  have hi64 : ∀ i < n, (UInt64.ofNat i).toNat = i := by
    intro i hi
    rw [UInt64.toNat_ofNat']
    omega
  have hstart : ∀ i < n, (UInt64.ofNat i * h.chunk).toNat = i * c := by
    intro i hi
    have := hbound i hi
    rw [Nat.add_mul] at this
    rw [UInt64.toNat_mul, hi64 i hi, toNat_chunk, hC, Nat.mod_eq_of_lt (by omega)]
  have hstop : ∀ i < n, ((UInt64.ofNat i + 1) * h.chunk).toNat = (i + 1) * c := by
    intro i hi
    have hle := hbound i hi
    have hsucc : (UInt64.ofNat i + 1).toNat = i + 1 := by
      rw [UInt64.toNat_add, hi64 i hi, UInt64.toNat_one]
      omega
    rw [UInt64.toNat_mul, hsucc, toNat_chunk, hC, Nat.mod_eq_of_lt (by omega)]
  constructor
  · rw [hN, UInt64.toNat_mul, hN]
    change n * 16 % 2 ^ 64 = n * 16
    omega
  · rw [hN, hC]
    exact hstart
  · rw [hN, hC]
    exact hstop
  · rw [hN, hC, hL]
    intro i hi
    have hle := hbound i hi
    rw [Nat.add_mul] at hle
    unfold Header.valid
    split
    · rename_i hfull
      have hfull := UInt64.le_iff_toNat_le.mp hfull
      rw [hstop i hi, hL, Nat.add_mul] at hfull
      rw [toNat_chunk, hC]
      omega
    · rename_i hpart
      have hpart : ¬((UInt64.ofNat i + 1) * h.chunk).toNat ≤ h.logicalSize.toNat :=
        fun hle => hpart (UInt64.le_iff_toNat_le.mpr hle)
      rw [hstop i hi, hL, Nat.add_mul] at hpart
      have hsub : (h.logicalSize - UInt64.ofNat i * h.chunk).toNat = L - i * c := by
        rw [UInt64.toNat_sub_of_le, hstart i hi, hL]
        rw [UInt64.le_iff_toNat_le, hstart i hi, hL]
        omega
      rw [hsub]
      omega

end Header

def Access.Safe (a : Access) : Prop := 0 ≤ a.start ∧ a.start + a.length ≤ a.capacity

def Work.Safe (w : Work) : Prop := ∀ a ∈ w.accesses, a.Safe

def Work.Sound (h : Header) (w : Work) : Prop := w.Safe ∧ (w.reachedLoop = true → Fits h)

variable {h : Header} {b : Bool}

def Kept (h : Header) (b : Bool) (w : Work) : Prop := w.Sound h ∧ w.reachedLoop = b

theorem touch_kept {a : Access} (ha : a.Safe) : Triple (Kept h b) (touch a) (fun _ => Kept h b) (Work.Sound h) := by
  apply Triple.modify
  rintro w ⟨⟨hs, hf⟩, hb⟩
  refine ⟨⟨?_, hf⟩, hb⟩
  intro a' ha'
  rcases List.mem_append.mp ha' with ha' | ha'
  · exact hs a' ha'
  · rw [List.mem_singleton.mp ha']
    exact ha

theorem setOutput_kept (f : Image) : Triple (Kept h b) (setOutput f) (fun _ => Kept h b) (Work.Sound h) :=
  Triple.modify fun _ hw => hw

theorem image_kept : Triple (Kept h b) image (fun _ => Kept h b) (Work.Sound h) := by
  apply Triple.get_bind
  rintro w hw
  exact Triple.pure fun w' hw' => hw' ▸ hw

theorem writePage_kept {capacity : ℕ} {piece : Bytes} {offset : ℤ} (ho : 0 ≤ offset)
    (hc : offset + piece.length ≤ capacity) :
    Triple (Kept h b) (writePage host capacity piece offset) (fun _ => Kept h b) (Work.Sound h) := by
  apply Triple.ite
  · exact fun _ => Triple.pure fun _ hw => hw
  · intro _
    refine Triple.bind (touch_kept ⟨ho, hc⟩) fun _ => Triple.bind image_kept fun f => ?_
    exact Triple.ofOption_bind (fun g _ => setOutput_kept g) fun _ hw => hw.1

theorem writeSparseLoop_kept {capacity page : ℕ} {buffer : Bytes} {offset : ℤ} (ho : 0 ≤ offset)
    (hc : offset + buffer.length ≤ capacity) (fuel cursor : ℕ) :
    Triple (Kept h b) (writeSparseLoop host capacity buffer page offset fuel cursor) (fun _ => Kept h b)
    (Work.Sound h) := by
  induction fuel generalizing cursor with
  | zero => exact Triple.pure fun _ hw => hw
  | succ fuel ih =>
    apply Triple.ite
    · intro hcur
      refine Triple.bind (writePage_kept (by omega) ?_) fun _ => ih _
      simp only [List.length_take, List.length_drop]
      omega
    · exact fun _ => Triple.pure fun _ hw => hw

theorem writeSparse_kept {capacity : ℕ} {buffer : Bytes} {offset : ℤ} (ho : 0 ≤ offset)
    (hc : offset + buffer.length ≤ capacity) :
    Triple (Kept h b) (writeSparse host capacity buffer offset) (fun _ => Kept h b) (Work.Sound h) :=
  Triple.require_bind (fun _ => writeSparseLoop_kept ho hc _ _) fun _ hw => hw.1

theorem growPayload_kept (length : ℕ) :
    Triple (Kept h b) (growPayload host length) (fun _ w => Kept h b w ∧ length ≤ w.payloadCapacity)
    (Work.Sound h) := by
  apply Triple.get_bind
  intro w hw
  apply Triple.ite
  · intro _
    refine Triple.require_bind (fun _ => Triple.modify ?_) fun _ hw' => hw' ▸ hw.1
    rintro w' rfl
    exact ⟨hw, le_rfl⟩
  · intro hc
    apply Triple.pure
    rintro w' rfl
    exact ⟨hw, by omega⟩

theorem decodeChunk_kept {container : Image} {index : Bytes} {i : ℕ} (hf : Fits h) (hl : h.logicalSize.toNat < 2 ^ 63)
    (hi : i < h.chunkCount.toNat) :
    Triple (Kept h b) (decodeChunk host zstd container h index (.ofNat i)) (fun _ => Kept h b) (Work.Sound h) := by
  obtain ⟨hpos, hle, hend⟩ := hf.valid i hi
  have hstart := hf.start i hi
  apply Triple.ite
  · exact fun _ => Triple.pure fun _ hw => hw
  intro _
  refine Triple.require_bind (fun _ => ?_) fun _ hw => hw.1
  refine Triple.bind (growPayload_kept _) fun _ => Triple.get_bind ?_
  rintro w ⟨hw, hcap⟩
  refine Triple.bind (Q := fun _ => Kept h b) ?_ fun _ => ?_
  · intro w' hw'
    subst hw'
    exact touch_kept (a := ⟨.payload, w'.payloadCapacity, 0, _⟩) ⟨le_rfl, by simpa using hcap⟩ w' hw
  refine Triple.ofOption_bind (fun frame _ => ?_) fun _ hw => hw.1
  refine Triple.require_bind (fun _ => ?_) fun _ hw => hw.1
  refine Triple.bind (touch_kept ⟨le_rfl, by simpa using hle⟩) fun _ => ?_
  refine Triple.ofOption_bind (fun page _ => ?_) fun _ hw => hw.1
  refine Triple.require_bind (fun hpage => ?_) fun _ hw => hw.1
  have hoff : offT (UInt64.ofNat i * h.chunk) = (i * h.chunkSize.toNat : ℕ) := by
    rw [offT_of_lt (by omega), hstart]
  apply writeSparse_kept
  · omega
  · rw [hoff, hpage]
    exact_mod_cast hend

theorem decodeChunks_kept {container : Image} {index : Bytes} (hf : Fits h) (hl : h.logicalSize.toNat < 2 ^ 63)
    {is : List ℕ} (his : ∀ i ∈ is, i < h.chunkCount.toNat) :
    Triple (Kept h b) (decodeChunks host zstd container h index is) (fun _ => Kept h b) (Work.Sound h) := by
  induction is with
  | nil => exact Triple.pure fun _ hw => hw
  | cons i is ih =>
    refine Triple.bind (decodeChunk_kept hf hl (his i List.mem_cons_self)) fun _ => ih ?_
    exact fun j hj => his j (List.mem_cons_of_mem _ hj)

theorem openOutput_kept : Triple (Kept h b) (openOutput host) (fun _ => Kept h b) (Work.Sound h) := by
  apply Triple.get_bind
  intro w hw
  refine Triple.require_bind (fun _ => ?_) fun _ hw' => hw' ▸ hw.1
  apply Triple.modify
  rintro w' rfl
  exact hw

theorem decompressBody_sound (container : Image) :
    Triple (Kept (Header.parse (container.slice 0 64)) false) (decompressBody host zstd container)
      (fun _ => Kept (Header.parse (container.slice 0 64)) true)
      (Work.Sound (Header.parse (container.slice 0 64))) := by
  refine Triple.require_bind (fun _ => ?_) fun _ hw => hw.1
  refine Triple.bind (touch_kept ⟨le_rfl, by simp [headerSize]⟩) fun _ => ?_
  refine Triple.ofOption_bind (fun bytes hread => ?_) fun _ hw => hw.1
  obtain rfl : bytes = container.slice 0 64 := (Host.readFull_eq_some hread).1
  dsimp only
  generalize Header.parse (container.slice 0 64) = h
  refine Triple.require_bind (fun hw => ?_) fun _ hw => hw.1
  refine Triple.require_bind (fun hcount => ?_) fun _ hw => hw.1
  refine Triple.require_bind (fun _ => ?_) fun _ hw => hw.1
  refine Triple.bind (touch_kept ⟨le_rfl, by simp⟩) fun _ => ?_
  refine Triple.ofOption_bind (fun index _ => ?_) fun _ hw => hw.1
  refine Triple.bind openOutput_kept fun _ => Triple.bind image_kept fun f => ?_
  refine Triple.ofOption_bind (fun g hg => ?_) fun _ hw => hw.1
  -- the only bound on the logical size is that `ftruncate` took it
  have hl : h.logicalSize.toNat < 2 ^ 63 := by
    unfold Host.truncateFile at hg
    split at hg
    · cases hg
    · rename_i hneg
      apply offT_nonneg
      by_contra hlt
      exact hneg (.inl (by omega))
  have hf := Header.fits hw hl hcount
  refine Triple.bind (setOutput_kept g) fun _ => ?_
  refine Triple.bind (Q := fun _ => Kept h true) (Triple.modify fun w hw => ⟨⟨hw.1.1, fun _ => hf⟩, rfl⟩) fun _ => ?_
  refine Triple.bind (decodeChunks_kept hf hl fun i hi => List.mem_range.mp hi) fun _ => ?_
  refine Triple.require_bind (fun _ => ?_) fun _ hw => hw.1
  unfold require
  exact Triple.ite (fun _ => Triple.pure fun _ hw => hw) fun _ => Triple.raise fun _ hw => hw.1

theorem decoder_arithmetic_safe (host : Host) (zstd : Zstd) (container : Image) (previous : Option Image) :
    ((decompressFile host zstd container previous).reachedLoop = true → Fits (Header.parse (container.slice 0 64))) ∧
    (∀ a ∈ (decompressFile host zstd container previous).accesses, a.Safe) ∧
    ((decompressFile host zstd container previous).reachedLoop = false →
      (decompressFile host zstd container previous).code = 1) ∧
    ((decompressFile host zstd container previous).code ≠ 0 →
      (decompressFile host zstd container previous).output = none) := by
  have hbody := @decompressBody_sound host zstd container { output := previous } ⟨⟨nofun, nofun⟩, rfl⟩
  unfold decompressFile leave
  rcases hr : (decompressBody host zstd container).run { output := previous } with ⟨r, w⟩
  rw [hr] at hbody
  cases r with
  | ok _ => exact ⟨hbody.1.2, hbody.1.1, fun hb => absurd (hbody.2.symm.trans hb) (by simp), fun hc => absurd rfl hc⟩
  | error _ => exact ⟨hbody.2, hbody.1, fun _ => rfl, fun _ => rfl⟩

end ClawBox.PageSnapshot
