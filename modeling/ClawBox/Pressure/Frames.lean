import ClawBox.Pressure.Undone

namespace ClawBox.Pressure

open Transition Raising

variable {w w' w'' : World} {r : ℕ} {o : Options}

structure Tends (r : ℕ) (w w' : World) : Prop where
  vms : w'.vms = w.vms
  created : w'.created = w.created
  forecasts : w'.releaseForecasts = w.releaseForecasts
  others : ∀ r', r' ≠ r → w'.objects r' = w.objects r'
  vm : ∃ since cooldown marks,
    w'.objects r = { w.objects r with actionSince := since, cooldownUntil := cooldown, modified := marks }
  leaves : ∀ g, g ≠ (w.objects r).group → w'.leaves g = w.leaves g

theorem Tends.refl (w : World) : Tends r w w := ⟨rfl, rfl, rfl, fun _ _ => rfl, ⟨_, _, _, rfl⟩, fun _ _ => rfl⟩

theorem Tends.group (h : Tends r w w') : (w'.objects r).group = (w.objects r).group := by
  obtain ⟨_, _, _, hvm⟩ := h.vm
  rw [hvm]

theorem Tends.trans (w w' w'' : World) (h : Tends r w w') (h' : Tends r w' w'') : Tends r w w'' where
  vms := h'.vms.trans h.vms
  created := h'.created.trans h.created
  forecasts := h'.forecasts.trans h.forecasts
  others r' hr' := (h'.others r' hr').trans (h.others r' hr')
  vm := by
    obtain ⟨_, _, _, hvm⟩ := h.vm
    obtain ⟨_, _, _, hvm'⟩ := h'.vm
    exact ⟨_, _, _, by rw [hvm', hvm]⟩
  leaves g hg := by rw [h'.leaves g (by rwa [h.group]), h.leaves g hg]

theorem changeVM_tends {f : VM → VM}
    (hf : ∀ vm, ∃ since cooldown marks,
      f vm = { vm with actionSince := since, cooldownUntil := cooldown, modified := marks }) :
    Moves (Tends r) (changeVM r f) := by
  apply Moves.modify
  intro w
  refine ⟨rfl, rfl, rfl, ?_, ?_, fun _ _ => rfl⟩
  · intro r' hr'
    rw [World.objects_putVM, if_neg hr']
  · obtain ⟨_, _, _, h⟩ := hf (w.objects r)
    exact ⟨_, _, _, by rw [World.objects_putVM, if_pos rfl, h]⟩

theorem writeText_tends (w : World) (c : Control) (v : ℕ) (fails : Bool) :
    Tends r w ((writeText (w.objects r).group c v fails).run w).2 := by
  rcases writeText_run (w.objects r).group c v fails w with ⟨-, hrun⟩ | hrun
  · rw [hrun]
    exact .refl w
  · rw [hrun]
    refine ⟨rfl, rfl, rfl, fun _ _ => rfl, ⟨_, _, _, rfl⟩, ?_⟩
    intro g hg
    rw [World.leaves_putLeaf, if_neg hg]

theorem putBack_tends (c : Control) (fails : Bool) : Moves (Tends r) (putBack r c fails) := by
  apply Moves.get_bind
  intro w
  rw [run_ite]
  split_ifs
  · exact writeText_tends w c _ fails
  · exact .refl w

theorem restoreLoop_tends (fails : Fails) (cs : List Control) : Moves (Tends r) (restoreLoop r fails cs) := by
  induction cs with
  | nil => exact Moves.pure .refl ()
  | cons c cs ih =>
    apply Moves.bind .trans (putBack_tends c (fails c))
    intro _
    apply Moves.bind .trans (changeVM_tends fun _ => ⟨_, _, _, rfl⟩)
    intro _
    exact ih

theorem VM.cool_tends (f : ℤ → ℤ) (vm : VM) :
    ∃ since cooldown marks,
      VM.cool f vm = { vm with actionSince := since, cooldownUntil := cooldown, modified := marks } := by
  unfold VM.cool
  split_ifs <;> exact ⟨_, _, _, rfl⟩

theorem restore_tends (now : ℤ) (fails : Fails) : Moves (Tends r) (restore o r now fails) := by
  apply Moves.bind .trans (changeVM_tends (VM.cool_tends _))
  intro _
  apply Moves.get_bind
  intro w
  have hloop := restoreLoop_tends (r := r) fails (w.objects r).modified.keys
  exact Moves.bind .trans hloop (fun _ => changeVM_tends fun _ => ⟨_, _, _, rfl⟩) w

theorem apply_tends (c : Control) (v : ℕ) (x : Glance) : Moves (Tends r) (apply r c v x) := by
  apply Moves.get_bind
  intro w
  rw [run_ite, run_ite]
  split_ifs
  · exact .refl w
  · exact .refl w
  · have hmark : Tends r w (w.putVM r { w.objects r with modified := (w.objects r).modified.add c }) :=
      changeVM_tends (f := fun vm => { vm with modified := vm.modified.add c }) (fun _ => ⟨_, _, _, rfl⟩) w
    have hwrite := writeText_tends (r := r) (w.putVM r { w.objects r with modified := (w.objects r).modified.add c }) c
      v
      (x.writeFails c)
    rw [hmark.group] at hwrite
    exact hmark.trans _ _ _ hwrite

theorem grant_tends (p : Poll) (x : Glance) : Moves (Tends r) (grant o p r x) := by
  apply Moves.get_bind
  intro w
  rw [run_ite]
  split_ifs
  · exact .refl w
  · refine Moves.bind .trans (apply_tends _ _ x) (fun _ => ?_) w
    apply Moves.bind .trans (apply_tends _ _ x)
    intro _
    apply Moves.bind .trans (changeVM_tends ?_)
    · intro _
      exact Moves.pure .refl _
    · intro vm
      unfold VM.act
      split_ifs <;> exact ⟨_, _, _, rfl⟩

theorem ease_tends (p : Poll) (x : Glance) : Moves (Tends r) (ease o p r x) := by
  apply Moves.bind .trans (restore_tends x.now x.restoreFails)
  intro _
  exact Moves.pure .refl _

theorem visit_tends (p : Poll) (x : Glance) : Moves (Tends r) (visit o p r x) := by
  apply Moves.get_bind
  intro w
  dsimp only
  rw [run_ite]
  split
  · exact .refl w
  · refine Moves.bind .trans (Moves.modify ?_) (fun _ => ?_) w
    · intro w
      exact ⟨rfl, rfl, rfl, fun _ _ => rfl, ⟨_, _, _, rfl⟩, fun _ _ => rfl⟩
    · apply Moves.ite (ease_tends p x)
      apply Moves.ite (ease_tends p x)
      apply Moves.ite (Moves.raise Tends.refl Fault.io)
      apply Moves.ite
      · apply Moves.bind .trans (changeVM_tends (VM.cool_tends _))
        intro _
        exact ease_tends p x
      · exact grant_tends p x

section Untouched

theorem restore_untouched (hm : (w.objects r).modified.keys = []) (now : ℤ) (fails : Fails) :
    ∃ w', (restore o r now fails).run w = (.ok (), w') ∧ w'.leaves = w.leaves ∧ (w'.objects r).modified.keys = [] := by
  have hkeys : (VM.cool (fun t => max t (now + o.cooldown)) (w.objects r)).modified.keys = [] := by
    unfold VM.cool
    split_ifs <;> exact hm
  have hcool : ((w.putVM r (VM.cool (fun t => max t (now + o.cooldown)) (w.objects r))).objects r).modified.keys =
      [] := by
    rw [World.objects_putVM, if_pos rfl, hkeys]
  have hrun : (restore o r now fails).run w = (changeVM r fun vm => { vm with actionSince := none }).run
      (w.putVM r (VM.cool (fun t => max t (now + o.cooldown)) (w.objects r))) := by
    change (restoreLoop r fails
      ((w.putVM r (VM.cool (fun t => max t (now + o.cooldown)) (w.objects r))).objects r).modified.keys >>= fun _ =>
        changeVM r fun vm => { vm with actionSince := none }).run _ = _
    rw [hcool]
    rfl
  rw [hrun]
  exact ⟨_, rfl, rfl, by rw [World.objects_putVM, if_pos rfl, hcool]⟩

theorem putBack_objects (c : Control) (fails : Bool) : Frames World.objects (putBack r c fails) := by
  apply Frames.get_bind
  intro w
  apply Frames.ite
  · intro s
    rcases writeText_run (w.objects r).group c ((w.objects r).saved.get c) fails s with ⟨-, hrun⟩ | hrun
    · rw [hrun]
    · rw [hrun]
      rfl
  · exact Frames.pure ()

theorem restoreLoop_ok {fails : Fails} {cs : List Control} (h : (restoreLoop r fails cs).run w = (.ok (), w')) :
    ∀ c ∈ (w'.objects r).modified.keys, c ∈ (w.objects r).modified.keys ∧ c ∉ cs := by
  induction cs generalizing w with
  | nil =>
    obtain rfl : w = w' := congrArg Prod.snd h
    exact fun c hc => ⟨hc, List.not_mem_nil⟩
  | cons d cs ih =>
    obtain ⟨_, w₁, hput, hrest⟩ := bind_eq_ok h
    have hobjects : w₁.objects = w.objects := by
      have hframe := putBack_objects (r := r) d (fails d) w
      rwa [hput] at hframe
    intro c hc
    obtain ⟨hmark, hnot⟩ := ih hrest c hc
    rw [World.objects_putVM, if_pos rfl, hobjects] at hmark
    obtain ⟨hne, hold⟩ := PySet.mem_keys_discard.1 hmark
    exact ⟨hold, fun hmem => (List.mem_cons.1 hmem).elim hne hnot⟩

theorem restore_ok {now : ℤ} {fails : Fails} (h : (restore o r now fails).run w = (.ok (), w')) :
    (w'.objects r).modified.keys = [] := by
  obtain ⟨_, w₁, -, hrest⟩ := bind_eq_ok h
  rw [run_get_bind] at hrest
  obtain ⟨_, w₂, hloop, hlast⟩ := bind_eq_ok hrest
  obtain rfl : w₂.putVM r { w₂.objects r with actionSince := none } = w' := congrArg Prod.snd hlast
  rw [World.objects_putVM, if_pos rfl, List.eq_nil_iff_forall_not_mem]
  intro c hc
  exact (restoreLoop_ok hloop c hc).2 (restoreLoop_ok hloop c hc).1

theorem visit_untouched (hm : (w.objects r).modified.keys = [])
    (hidle : (w.objects r).role ≠ .tool ∨ (w.objects r).phase ≠ .toolActive) (p : Poll) (x : Glance) :
    ((visit o p r x).run w).2.leaves = w.leaves ∧ (((visit o p r x).run w).2.objects r).modified.keys = [] := by
  unfold visit
  rw [run_get_bind]
  dsimp only
  rw [run_ite]
  split
  · exact ⟨rfl, hm⟩
  · rw [run_modify_bind]
    obtain ⟨w', hrun, hleaves, hmarks⟩ := restore_untouched (o := o) (r := r)
      (w := World.press (isBlocked p (w.objects r)) (p.domains.get? (w.objects r).session) p.began w) hm x.now
      x.restoreFails
    have heased : (ease o p r x).run (World.press (isBlocked p (w.objects r)) (p.domains.get? (w.objects r).session)
        p.began w) = (.ok p.left, w') := run_bind_ok hrun _
    rw [heased]
    exact ⟨hleaves, hmarks⟩

end Untouched

end ClawBox.Pressure
