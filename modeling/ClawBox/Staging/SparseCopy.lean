import ClawBox.Lib.SparseFile
import Mathlib.Data.List.Basic
import Mathlib.Logic.Function.Basic

namespace ClawBox.Staging

open SparseFile

/-- How many bytes a call of `os.read` or `os.write` would like to move at an offset. -/
structure Disk where
  reads : ℕ → ℕ → ℕ
  writes : ℕ → ℕ → ℕ

def readSize : ℕ := 4 * 1024 ^ 2

def moved (wish limit : ℕ) : ℕ := min (max wish 1) limit

def Disk.read (disk : Disk) (f : Image) (position count : ℕ) : Bytes :=
  f.slice position (moved (disk.reads position count) (min count (f.size - position)))

def Disk.writeView (disk : Disk) : ℕ → Image → ℕ → Bytes → Image
  | 0, target, _, _ => target
  | fuel + 1, target, position, view =>
    if view.isEmpty then target
    else
      let written := moved (disk.writes position view.length) view.length
      writeView disk fuel (target.write position (view.take written)) (position + written) (view.drop written)

def copyExtent (disk : Disk) (f : Image) : ℕ → ℕ → ℕ → Image × ℕ → Except String (Image × ℕ)
  | _, _, 0, r => .ok r
  | 0, _, _ + 1, _ => .error "short read while copying"
  | fuel + 1, position, remaining + 1, (target, copied) =>
    let chunk := disk.read f position (min readSize (remaining + 1))
    if chunk.isEmpty then .error "short read while copying"
    else copyExtent disk f fuel (position + chunk.length) (remaining + 1 - chunk.length)
      (disk.writeView chunk.length target position chunk, copied + chunk.length)

def hashExtent (disk : Disk) (f : Image) : ℕ → ℕ → ℕ → Bytes → Except String Bytes
  | _, _, 0, value => .ok value
  | 0, _, _ + 1, _ => .error "short read while hashing"
  | fuel + 1, position, remaining + 1, value =>
    let chunk := disk.read f position (min readSize (remaining + 1))
    if chunk.isEmpty then .error "short read while hashing"
    else hashExtent disk f fuel (position + chunk.length) (remaining + 1 - chunk.length) (value ++ chunk)

/-- The next extent from `offset` on, where an error of `SEEK_DATA` leaves the offset as it is. -/
def extent (f : Sparse) (offset : ℕ) : ℕ × ℕ :=
  let data := (f.seekData offset).getD offset
  (data, ((f.seekHole data).map (min f.size)).getD f.size)

-- none means that the fuel ran out
def copyLoop (disk : Disk) (f : Sparse) : ℕ → ℕ → Image × ℕ → Option (Except String (Image × ℕ))
  | 0, offset, r => if offset < f.size then none else some (.ok r)
  | fuel + 1, offset, r =>
    if offset < f.size then
      if f.size ≤ (extent f offset).1 then some (.ok r)
      else match copyExtent disk f.toImage ((extent f offset).2 - (extent f offset).1) (extent f offset).1
          ((extent f offset).2 - (extent f offset).1) r with
        | .error e => some (.error e)
        | .ok r => copyLoop disk f fuel (extent f offset).2 r
    else some (.ok r)

def copyMeasured (disk : Disk) (f : Sparse) (fuel : ℕ) : Option (Except String (Image × ℕ)) :=
  copyLoop disk f fuel 0 (Image.empty.truncate f.size, 0)

def toBytes (n : ℕ) : Bytes := (List.range 8).map fun k => .ofNat (n / 256 ^ (7 - k))

def digestLoop (disk : Disk) (f : Sparse) : ℕ → ℕ → Bytes → Option (Except String Bytes)
  | 0, offset, value => if offset < f.size then none else some (.ok value)
  | fuel + 1, offset, value =>
    if offset < f.size then
      if f.size ≤ (extent f offset).1 then some (.ok value)
      else match hashExtent disk f.toImage ((extent f offset).2 - (extent f offset).1) (extent f offset).1
          ((extent f offset).2 - (extent f offset).1) (value ++ toBytes (extent f offset).1) with
        | .error e => some (.error e)
        | .ok value => digestLoop disk f fuel (extent f offset).2 value
    else some (.ok value)

def digest {Digest : Type} (sha256 : Bytes → Digest) (disk : Disk) (f : Sparse) (fuel : ℕ) :
    Option (Except String Digest) :=
  (digestLoop disk f fuel 0 (toBytes f.size)).map fun r => r.map sha256

section Extents

variable {disk : Disk} {f : Sparse}

theorem writeView_eq (fuel : ℕ) (target : Image) (position : ℕ) (view : Bytes) (hfuel : view.length ≤ fuel) :
    disk.writeView fuel target position view = target.write position view := by
  induction fuel generalizing target position view with
  | zero =>
    obtain rfl : view = [] := List.length_eq_zero_iff.mp (by omega)
    rfl
  | succ fuel ih =>
    rw [Disk.writeView]
    split
    · rename_i hv
      rw [List.isEmpty_iff.mp hv, Image.write_nil]
    · rename_i hv
      have hpos : 0 < view.length := List.length_pos_iff.mpr fun he => hv (List.isEmpty_iff.mpr he)
      dsimp only
      generalize hw : moved (disk.writes position view.length) view.length = written
      have hle : 0 < written ∧ written ≤ view.length := by
        simp only [moved] at hw
        omega
      have htake : (view.take written).length = written := by
        rw [List.length_take]
        omega
      rw [ih _ _ _ (by rw [List.length_drop]; omega)]
      nth_rewrite 2 [← htake]
      rw [Image.write_append, List.take_append_drop]

theorem read_spec {position count : ℕ} (hc : 0 < count) (hend : position + count ≤ f.size) :
    ∃ got, 0 < got ∧ got ≤ count ∧ disk.read f.toImage position count = f.slice position got := by
  refine ⟨_, ?_, ?_, rfl⟩
  · simp only [moved]
    omega
  · simp only [moved]
    omega

theorem copyExtent_eq (fuel position remaining : ℕ) (target : Image) (copied : ℕ) (hfuel : remaining ≤ fuel)
    (hend : position + remaining ≤ f.size) :
    copyExtent disk f.toImage fuel position remaining (target, copied) =
      .ok (target.write position (f.slice position remaining), copied + remaining) := by
  induction fuel generalizing position remaining target copied with
  | zero =>
    obtain rfl : remaining = 0 := by omega
    rfl
  | succ fuel ih =>
    cases remaining with
    | zero => rfl
    | succ remaining =>
      obtain ⟨got, hpos, hle, hread⟩ := @read_spec disk f position (min readSize (remaining + 1))
        (by simp only [readSize]; omega) (by omega)
      rw [copyExtent, hread]
      have hne : ¬(f.slice position got).isEmpty = true := by
        rw [List.isEmpty_iff]
        exact List.ne_nil_of_length_pos (by rw [Image.length_slice]; exact hpos)
      rw [if_neg hne, Image.length_slice, writeView_eq _ _ _ _ (by simp), ih _ _ _ _ (by omega) (by omega)]
      have hsum : got + (remaining + 1 - got) = remaining + 1 := by omega
      have himage := Image.write_append target position (f.slice position got)
        (f.slice (position + got) (remaining + 1 - got))
      rw [Image.length_slice, Image.slice_append, hsum] at himage
      rw [himage, Nat.add_assoc, hsum]

theorem hashExtent_eq (fuel position remaining : ℕ) (value : Bytes) (hfuel : remaining ≤ fuel)
    (hend : position + remaining ≤ f.size) :
    hashExtent disk f.toImage fuel position remaining value = .ok (value ++ f.slice position remaining) := by
  induction fuel generalizing position remaining value with
  | zero =>
    obtain rfl : remaining = 0 := by omega
    simp [hashExtent, Image.slice]
  | succ fuel ih =>
    cases remaining with
    | zero => simp [hashExtent, Image.slice]
    | succ remaining =>
      obtain ⟨got, hpos, hle, hread⟩ := @read_spec disk f position (min readSize (remaining + 1))
        (by simp only [readSize]; omega) (by omega)
      rw [hashExtent, hread]
      have hne : ¬(f.slice position got).isEmpty = true := by
        rw [List.isEmpty_iff]
        exact List.ne_nil_of_length_pos (by rw [Image.length_slice]; exact hpos)
      have hsum : got + (remaining + 1 - got) = remaining + 1 := by omega
      rw [if_neg hne, Image.length_slice, ih _ _ _ (by omega) (by omega), List.append_assoc, Image.slice_append, hsum]

/-- No hole reaches the end of the file. -/
def EndsInData (f : Sparse) : Prop := f.size = 0 ∨ f.data (f.size - 1) = true

theorem extent_data {offset : ℕ} (hend : EndsInData f) (ho : offset < f.size) :
    offset ≤ (extent f offset).1 ∧ (extent f offset).1 < (extent f offset).2 ∧ (extent f offset).2 ≤ f.size ∧
      (∀ k, offset ≤ k → k < (extent f offset).1 → f.data k = false) := by
  have hlast : f.data (f.size - 1) = true := by
    rcases hend with hz | hd
    · omega
    · exact hd
  cases hs : f.seekData offset with
  | none =>
    have := Sparse.seekData_eq_none hs (show offset ≤ f.size - 1 by omega) (by omega)
    rw [hlast] at this
    cases this
  | some d =>
    obtain ⟨hle, hlt, hdata, hbefore⟩ := Sparse.seekData_eq_some hs
    obtain ⟨hole, hh, hdh, hhs, -, hnot⟩ := Sparse.exists_seekHole hlt
    simp only [extent, hs, Option.getD_some, hh, Option.map_some]
    refine ⟨hle, ?_, by omega, hbefore⟩
    rcases Nat.lt_or_ge d hole with h | h
    · omega
    · obtain rfl : hole = d := by omega
      rw [hdata] at hnot
      exact absurd (hnot hlt) (by simp)

theorem extent_hole {offset : ℕ} (hend : ¬EndsInData f) (ho : offset < f.size) :
    (extent f offset).1 < f.size ∧ (extent f offset).2 < f.size := by
  have hlast : f.data (f.size - 1) = false := by
    cases hd : f.data (f.size - 1) with
    | false => rfl
    | true => exact absurd (.inr hd) hend
  have hhole : ∀ d < f.size, ((f.seekHole d).map (min f.size)).getD f.size < f.size := by
    intro d hd
    obtain ⟨hole, hh, hdh, hhs, hdata, -⟩ := Sparse.exists_seekHole hd
    rw [hh, Option.map_some, Option.getD_some]
    rcases Nat.lt_or_ge hole f.size with h | h
    · omega
    · have := hdata (f.size - 1) (by omega) (by omega)
      rw [hlast] at this
      cases this
  cases hs : f.seekData offset with
  | none =>
    simp only [extent, hs, Option.getD_none]
    exact ⟨ho, hhole offset ho⟩
  | some d =>
    obtain ⟨-, hlt, -, -⟩ := Sparse.seekData_eq_some hs
    simp only [extent, hs, Option.getD_some]
    exact ⟨hlt, hhole d hlt⟩

theorem extent_le {offset : ℕ} : (extent f offset).2 ≤ f.size ∨ f.size ≤ (extent f offset).1 := by
  left
  simp only [extent]
  cases f.seekHole ((f.seekData offset).getD offset) with
  | none => exact le_rfl
  | some h => exact min_le_left _ _

end Extents

section Copy

variable {disk : Disk} {f : Sparse}

theorem copyLoop_succ {fuel offset : ℕ} {target : Image} {copied : ℕ} (ho : offset < f.size)
    (hd : (extent f offset).1 < f.size) :
    copyLoop disk f (fuel + 1) offset (target, copied) = copyLoop disk f fuel (extent f offset).2
      (target.write (extent f offset).1 (f.slice (extent f offset).1 ((extent f offset).2 - (extent f offset).1)),
        copied + ((extent f offset).2 - (extent f offset).1)) := by
  have hle : (extent f offset).2 ≤ f.size := by
    rcases @extent_le f offset with h | h
    · exact h
    · omega
  rw [copyLoop, if_pos ho, if_neg (by omega), copyExtent_eq _ _ _ _ _ le_rfl (by omega)]

theorem copyLoop_stuck (hend : ¬EndsInData f) (fuel offset : ℕ) (r : Image × ℕ) (ho : offset < f.size) :
    copyLoop disk f fuel offset r = none := by
  induction fuel generalizing offset r with
  | zero => rw [copyLoop, if_pos ho]
  | succ fuel ih =>
    obtain ⟨hd, hh⟩ := extent_hole hend ho
    rw [copyLoop_succ ho hd]
    exact ih _ _ hh

def Copied (f : Sparse) (offset : ℕ) (target : Image) : Prop :=
  target.size = f.size ∧ ∀ k < f.size, target.byte k = if k < offset then f.byte k else 0

theorem Copied.step {offset : ℕ} {target : Image} (hend : EndsInData f) (ho : offset < f.size)
    (hc : Copied f offset target) :
    Copied f (extent f offset).2
      (target.write (extent f offset).1 (f.slice (extent f offset).1 ((extent f offset).2 - (extent f offset).1))) := by
  obtain ⟨hle, hlt, hsize, hhole⟩ := extent_data hend ho
  generalize hex : extent f offset = e at *
  obtain ⟨data, hole⟩ := e
  dsimp only at *
  have hlen : (f.slice data (hole - data)).length = hole - data := Image.length_slice
  constructor
  · rw [Image.size_write (List.ne_nil_of_length_pos (by omega)), hlen, hc.1]
    omega
  · intro k hk
    rw [Image.byte_write (.inl (by rw [hc.1]; exact hk)), hlen, hc.2 k hk]
    by_cases hin : data ≤ k ∧ k < data + (hole - data)
    · rw [if_pos hin, if_pos (by omega), Image.getD_slice (by omega)]
      congr 1
      omega
    · rw [if_neg hin]
      by_cases hlow : k < offset
      · rw [if_pos hlow, if_pos (by omega)]
      · rw [if_neg hlow]
        split
        · exact (f.hole_zero k hk (hhole k (by omega) (by omega))).symm
        · rfl

theorem copyLoop_copied (hend : EndsInData f) (fuel offset : ℕ) (target : Image) (copied : ℕ)
    (hfuel : f.size ≤ offset + fuel) (hc : Copied f offset target) :
    ∃ g n, copyLoop disk f fuel offset (target, copied) = some (.ok (g, n)) ∧ g.Same f.toImage := by
  have hdone : ∀ o, f.size ≤ o → Copied f o target → target.Same f.toImage := by
    intro o ho hc
    refine ⟨hc.1, fun k hk => ?_⟩
    have hk' : k < f.size := hc.1 ▸ hk
    rw [hc.2 k hk', if_pos (by omega)]
  induction fuel generalizing offset target copied with
  | zero =>
    rw [copyLoop, if_neg (by omega)]
    exact ⟨target, copied, rfl, hdone offset (by omega) hc⟩
  | succ fuel ih =>
    by_cases ho : offset < f.size
    · obtain ⟨hle, hlt, hsize, -⟩ := extent_data hend ho
      rw [copyLoop_succ ho (by omega)]
      refine ih _ _ _ (by omega) (hc.step hend ho) ?_
      intro o hos hco
      refine ⟨hco.1, fun k hk => ?_⟩
      have hk' : k < f.size := hco.1 ▸ hk
      rw [hco.2 k hk', if_pos (by omega)]
    · rw [copyLoop, if_neg ho]
      exact ⟨target, copied, rfl, hdone offset (by omega) hc⟩

end Copy

section Digest

variable {disk disk' : Disk} {f g : Sparse}

def SameLayout (f g : Sparse) : Prop := f.size = g.size ∧ f.data = g.data

theorem SameLayout.extent (h : SameLayout f g) (offset : ℕ) : extent f offset = extent g offset := by
  obtain ⟨⟨fsize, fbyte⟩, fdata, fhole, flt⟩ := f
  obtain ⟨⟨gsize, gbyte⟩, gdata, ghole, glt⟩ := g
  obtain ⟨hs, hd⟩ := h
  dsimp only at hs hd
  subst hs hd
  rfl

theorem digestLoop_succ {fuel offset : ℕ} {value : Bytes} (ho : offset < f.size) (hd : (extent f offset).1 < f.size) :
    digestLoop disk f (fuel + 1) offset value = digestLoop disk f fuel (extent f offset).2
      (value ++ toBytes (extent f offset).1 ++ f.slice (extent f offset).1
        ((extent f offset).2 - (extent f offset).1)) := by
  have hle : (extent f offset).2 ≤ f.size := by
    rcases @extent_le f offset with h | h
    · exact h
    · omega
  rw [digestLoop, if_pos ho, if_neg (by omega), hashExtent_eq _ _ _ _ le_rfl (by omega)]

theorem digestLoop_stuck (hend : ¬EndsInData f) (fuel offset : ℕ) (value : Bytes) (ho : offset < f.size) :
    digestLoop disk f fuel offset value = none := by
  induction fuel generalizing offset value with
  | zero => rw [digestLoop, if_pos ho]
  | succ fuel ih =>
    obtain ⟨hd, hh⟩ := extent_hole hend ho
    rw [digestLoop_succ ho hd]
    exact ih _ _ hh

theorem digestLoop_pair (hend : EndsInData f) (hl : SameLayout f g) (fuel offset : ℕ) (value value' : Bytes)
    (hfuel : f.size ≤ offset + fuel) :
    ∃ x y, digestLoop disk f fuel offset value = some (.ok (value ++ x)) ∧
      digestLoop disk' g fuel offset value' = some (.ok (value' ++ y)) ∧ x.length = y.length ∧
      (x = y ↔ ∀ k, offset ≤ k → k < f.size → f.byte k = g.byte k) := by
  have hsize : g.size = f.size := hl.1.symm
  have hdone : f.size ≤ offset → ∃ x y, some (Except.ok value) = some (Except.ok (ε := String) (value ++ x)) ∧
      some (Except.ok value') = some (Except.ok (ε := String) (value' ++ y)) ∧ x.length = y.length ∧
      (x = y ↔ ∀ k, offset ≤ k → k < f.size → f.byte k = g.byte k) :=
    fun ho => ⟨[], [], by simp, by simp, rfl, fun _ k hk hlt => by omega, fun _ => rfl⟩
  induction fuel generalizing offset value value' with
  | zero =>
    rw [digestLoop, digestLoop, if_neg (by omega), if_neg (by omega)]
    exact hdone (by omega)
  | succ fuel ih =>
    by_cases ho : offset < f.size
    · obtain ⟨hle, hlt, hends, hhole⟩ := extent_data hend ho
      have hext := hl.extent offset
      rw [digestLoop_succ ho (by omega), digestLoop_succ (by omega) (by rw [← hext]; omega), ← hext]
      generalize extent f offset = e at *
      obtain ⟨data, hole⟩ := e
      dsimp only at *
      obtain ⟨x, y, hx, hy, hlen, hxy⟩ := ih hole (value ++ toBytes data ++ f.slice data (hole - data))
        (value' ++ toBytes data ++ g.slice data (hole - data)) (by omega)
        (fun ho => ⟨[], [], by simp, by simp, rfl, fun _ k hk hlt => by omega, fun _ => rfl⟩)
      refine ⟨toBytes data ++ f.slice data (hole - data) ++ x, toBytes data ++ g.slice data (hole - data) ++ y,
        by simpa using hx, by simpa using hy, by simp [hlen], ?_⟩
      have hinj : toBytes data ++ f.slice data (hole - data) ++ x = toBytes data ++ g.slice data (hole - data) ++ y ↔
          f.slice data (hole - data) = g.slice data (hole - data) ∧ x = y := by
        constructor
        · intro he
          obtain ⟨h₁, h₂⟩ := List.append_inj he (by simp)
          exact ⟨List.append_cancel_left h₁, h₂⟩
        · rintro ⟨h₁, h₂⟩
          rw [h₁, h₂]
      rw [hinj, hxy, Image.slice_eq_iff]
      constructor
      · rintro ⟨h₁, h₂⟩ k hk hks
        by_cases hk₁ : k < data
        · rw [f.hole_zero k hks (hhole k hk hk₁), g.hole_zero k (by omega) (hl.2 ▸ hhole k hk hk₁)]
        · by_cases hk₂ : k < hole
          · have := h₁ (k - data) (by omega)
            rwa [Nat.add_sub_cancel' (by omega)] at this
          · exact h₂ k (by omega) hks
      · intro hall
        exact ⟨fun k hk => hall _ (by omega) (by omega), fun k hk hks => hall k (by omega) hks⟩
    · rw [digestLoop, digestLoop, if_neg ho, if_neg (by omega)]
      exact hdone (by omega)

end Digest

/-- The loops of `_copy_measured` and `_digest` come to an end on `f`, the copy has its size and bytes, and the digest
tells it from every file of the same layout that has other bytes. -/
def Faithful {Digest : Type} (sha256 : Bytes → Digest) (disk : Disk) (f : Sparse) : Prop :=
  (∃ fuel g copied, copyMeasured disk f fuel = some (.ok (g, copied)) ∧ g.Same f.toImage) ∧
  ∀ disk' g, SameLayout f g → ∃ fuel d fuel' d', digest sha256 disk f fuel = some (.ok d) ∧
    digest sha256 disk' g fuel' = some (.ok d') ∧ (d = d' ↔ f.toImage.Same g.toImage)

theorem sparse_copy_faithful_iff {Digest : Type} (sha256 : Bytes → Digest) (hinj : Function.Injective sha256)
    (disk : Disk) (f : Sparse) : Faithful sha256 disk f ↔ f.size = 0 ∨ f.data (f.size - 1) = true := by
  constructor
  · rintro ⟨⟨fuel, g, copied, hcopy, -⟩, -⟩
    by_contra hend
    have hpos : 0 < f.size := Nat.pos_of_ne_zero fun hz => hend (.inl hz)
    rw [copyMeasured, copyLoop_stuck hend fuel 0 _ hpos] at hcopy
    cases hcopy
  · intro hend
    refine ⟨⟨f.size, ?_⟩, fun disk' g hl => ?_⟩
    · apply copyLoop_copied hend f.size 0 _ _ (by omega)
      refine ⟨rfl, fun k hk => ?_⟩
      simp [Image.truncate, Image.empty]
    · obtain ⟨x, y, hx, hy, -, hxy⟩ := @digestLoop_pair disk disk' f g hend hl f.size 0 (toBytes f.size)
        (toBytes g.size) (by omega)
      refine ⟨f.size, _, f.size, _, by rw [digest, hx]; rfl, by rw [digest, hy]; rfl, ?_⟩
      rw [hinj.eq_iff, hl.1, List.append_cancel_left_eq, hxy]
      exact ⟨fun h => ⟨hl.1, fun k hk => h k (by omega) hk⟩, fun h k _ hk => h.2 k hk⟩

def exampleDisk : Disk := ⟨fun _ n => n, fun _ n => n⟩

def holeThenData : Sparse where
  size := 2
  byte i := if i = 1 then 9 else 0
  data i := i = 1
  hole_zero i _ hi := by simp_all
  size_lt := by decide

theorem hole_then_data_faithful : Faithful (id : Bytes → Bytes) exampleDisk holeThenData :=
  (sparse_copy_faithful_iff id Function.injective_id exampleDisk holeThenData).mpr (by decide)

def oneByteHole : Sparse where
  size := 1
  byte _ := 0
  data _ := false
  hole_zero _ _ _ := rfl
  size_lt := by decide

theorem all_hole_never_copied :
    (∀ fuel, copyMeasured exampleDisk oneByteHole fuel = none) ∧
      (∀ fuel, digest (id : Bytes → Bytes) exampleDisk oneByteHole fuel = none) ∧
      ¬Faithful (id : Bytes → Bytes) exampleDisk oneByteHole := by
  have hend : ¬EndsInData oneByteHole := by
    rintro (h | h) <;> cases h
  have hcopy : ∀ fuel, copyMeasured exampleDisk oneByteHole fuel = none :=
    fun fuel => copyLoop_stuck hend fuel 0 _ Nat.one_pos
  refine ⟨hcopy, fun fuel => ?_, ?_⟩
  · rw [digest, digestLoop_stuck hend fuel 0 _ Nat.one_pos]
    rfl
  · rintro ⟨⟨fuel, g, copied, h, -⟩, -⟩
    rw [hcopy] at h
    cases h

end ClawBox.Staging
