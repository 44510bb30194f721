import Mathlib.Data.Finset.Card
import Mathlib.Logic.Relation
import Mathlib.Order.WellFounded
import Mathlib.Tactic.Common

namespace Termination

section Fuel

variable {α : Type*} {f g : ℕ → Option α} {a b : α}

def Returns (f : ℕ → Option α) (a : α) : Prop := ∃ bound, ∀ fuel, bound ≤ fuel → f fuel = some a

theorem Returns.of_succ (h : ∀ fuel, f (fuel + 1) = g fuel) (hg : Returns g a) : Returns f a := by
  obtain ⟨bound, hb⟩ := hg
  refine ⟨bound + 1, fun fuel hle => ?_⟩
  obtain ⟨n, rfl⟩ : ∃ n, fuel = n + 1 := ⟨fuel - 1, by omega⟩
  rw [h, hb n (by omega)]

theorem Returns.const (h : ∀ fuel, f (fuel + 1) = some a) : Returns f a :=
  .of_succ (g := fun _ => some a) h ⟨0, fun _ _ => rfl⟩

theorem Returns.map {β : Type*} {F : ℕ → Option β} {b : β} (hf : Returns f a)
    (h : ∀ fuel, f fuel = some a → F fuel = some b) : Returns F b := by
  obtain ⟨bound, hb⟩ := hf
  exact ⟨bound, fun fuel hle => h fuel (hb fuel hle)⟩

theorem Returns.unique (ha : Returns f a) (hb : Returns f b) : a = b := by
  obtain ⟨m, hm⟩ := ha
  obtain ⟨n, hn⟩ := hb
  have h := hm (max m n) (le_max_left _ _)
  rw [hn (max m n) (le_max_right _ _)] at h
  exact (Option.some.inj h).symm

end Fuel

section Acyclic

open Relation

variable {α : Type*} {r : α → α → Prop}

theorem wellFounded_of_acyclic (targets : Finset α) (hr : ∀ a b, r a b → b ∈ targets)
    (hacyclic : ∀ a, ¬TransGen r a a) : WellFounded r := by
  classical
  let above : α → Finset α := fun k => targets.filter fun a => ReflTransGen r a k
  refine Subrelation.wf (r := InvImage (· < ·) fun k => (above k).card) (fun {p k} hpk => ?_)
    (InvImage.wf _ wellFounded_lt)
  refine Finset.card_lt_card ⟨fun a ha => ?_, fun hsub => ?_⟩
  · obtain ⟨hat, hap⟩ := Finset.mem_filter.mp ha
    exact Finset.mem_filter.mpr ⟨hat, hap.tail hpk⟩
  · have hk := hsub (Finset.mem_filter.mpr ⟨hr p k hpk, .refl⟩)
    exact hacyclic k (TransGen.tail' (Finset.mem_filter.mp hk).2 hpk)

end Acyclic

end Termination
