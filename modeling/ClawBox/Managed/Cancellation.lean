import ClawBox.Managed.Dispatcher

namespace ClawBox.Managed

open Transition Raising

def Task.Over (t : Task) : Prop := t.reported = true ∨ t.desiredState = .cancelled

abbrev Tasks := PyDict (ℕ × ℕ) Task

def Database.Awaits (db : Database) (r : ℕ) : Prop :=
  ∃ row ∈ db.outbox, row.run = r ∧ row.event = .cancelRequested ∧ row.processed = false

structure Sound (db : Database) (tasks : Tasks) (minted : ℕ) : Prop where
  attempts : ∀ a x, db.attempts.get? a = some x →
    a < minted ∧ ∃ run, db.runs.get? x.run = some run ∧ x.number ≤ run.attemptCounter ∧ run.currentAttemptId.isSome
  unique : ∀ a b x y, db.attempts.get? a = some x → db.attempts.get? b = some y → x.run = y.run →
    x.number = y.number → a = b
  current : ∀ r run a, db.runs.get? r = some run → run.currentAttemptId = some a →
    ∃ x, db.attempts.get? a = some x ∧ x.run = r
  rows : ∀ row ∈ db.outbox, ∀ a, row.event = .attemptCreated a → ∃ x, db.attempts.get? a = some x ∧ x.run = row.run
  named : ∀ name t, tasks.get? name = some t →
    ((∃ p, t.status = some p ∧ p.terminal = true) → t.reported = true) ∧
      ∃ x, db.attempts.get? t.attemptId = some x ∧ (x.run, x.number) = name
  -- an attempt is followed by another one only when its task is over
  past : ∀ a x run, db.attempts.get? a = some x → db.runs.get? x.run = some run → run.currentAttemptId ≠ some a →
    ∃ t, tasks.get? (x.run, x.number) = some t ∧ t.Over
  ended : ∀ r run, db.runs.get? r = some run → isTerminalRun run.phase → ∃ a x t, run.currentAttemptId = some a ∧
    db.attempts.get? a = some x ∧ tasks.get? (r, x.number) = some t ∧ t.reported = true
  cancelled : ∀ r run, db.runs.get? r = some run → run.desiredState = some .cancelled →
    db.Awaits r ∨ ∀ n t, tasks.get? (r, n) = some t → t.Over

section Changes

variable {db db' : Database} {tasks tasks' : Tasks} {minted : ℕ}

theorem Sound.retask (h : Sound db tasks minted)
    (hkeep : ∀ name t, tasks.get? name = some t → ∃ t', tasks'.get? name = some t' ∧ (t.Over → t'.Over) ∧
      (t.reported = true → t'.reported = true))
    (hnamed : ∀ name t', tasks'.get? name = some t' →
      ((∃ p, t'.status = some p ∧ p.terminal = true) → t'.reported = true) ∧
        ∃ x, db.attempts.get? t'.attemptId = some x ∧ (x.run, x.number) = name)
    (hnew : ∀ r n t' run, tasks'.get? (r, n) = some t' → db.runs.get? r = some run →
      run.desiredState = some .cancelled → t'.Over ∨ ∃ t, tasks.get? (r, n) = some t) : Sound db tasks' minted := by
  refine ⟨h.attempts, h.unique, h.current, h.rows, hnamed, ?_, ?_, ?_⟩
  · intro a x run hx hrun hne
    obtain ⟨t, ht, hover⟩ := h.past a x run hx hrun hne
    obtain ⟨t', ht', hover', -⟩ := hkeep _ t ht
    exact ⟨t', ht', hover' hover⟩
  · intro r run hrun hterminal
    obtain ⟨a, x, t, ha, hx, ht, hreported⟩ := h.ended r run hrun hterminal
    obtain ⟨t', ht', -, hreported'⟩ := hkeep _ t ht
    exact ⟨a, x, t', ha, hx, ht', hreported' hreported⟩
  · intro r run hrun hcancelled
    rcases h.cancelled r run hrun hcancelled with hrow | hall
    · exact .inl hrow
    · right
      intro n t' ht'
      rcases hnew r n t' run ht' hrun hcancelled with hover | ⟨t, ht⟩
      · exact hover
      · obtain ⟨u, hu, hover, -⟩ := hkeep _ t ht
        rw [ht'] at hu
        obtain rfl := Option.some.inj hu
        exact hover (hall n t ht)

theorem Sound.setTask (h : Sound db tasks minted) {name : ℕ × ℕ} {t t' : Task} (ht : tasks.get? name = some t)
    (hid : t'.attemptId = t.attemptId) (hover : t.Over → t'.Over) (hreported : t.reported = true → t'.reported = true)
    (hstatus : (∃ p, t'.status = some p ∧ p.terminal = true) → t'.reported = true) :
    Sound db (tasks.set name t') minted := by
  refine h.retask ?_ ?_ ?_
  · intro k u hu
    rw [PyDict.get?_set]
    split_ifs with hk
    · subst hk
      rw [ht] at hu
      obtain rfl := Option.some.inj hu
      exact ⟨t', rfl, hover, hreported⟩
    · exact ⟨u, hu, id, id⟩
  · intro k u hu
    rw [PyDict.get?_set] at hu
    split_ifs at hu with hk
    · subst hk
      obtain rfl := Option.some.inj hu
      rw [hid]
      exact ⟨hstatus, (h.named k t ht).2⟩
    · exact h.named k u hu
  · intro r n u run hu hrun _
    right
    rw [PyDict.get?_set] at hu
    split_ifs at hu with hk
    · exact ⟨t, by rw [hk, ht]⟩
    · exact ⟨u, hu⟩

theorem Sound.createTask (h : Sound db tasks minted) {a : ℕ} {x : Attempt} {desired : Desired}
    (hx : db.attempts.get? a = some x) (hfree : tasks.get? (x.run, x.number) = none)
    (hdesired : ∀ run, db.runs.get? x.run = some run → run.desiredState = some .cancelled → desired = .cancelled) :
    Sound db (tasks.set (x.run, x.number) ⟨a, desired, none, false⟩) minted := by
  refine h.retask ?_ ?_ ?_
  · intro k u hu
    have hk : k ≠ (x.run, x.number) := by
      rintro rfl
      rw [hfree] at hu
      cases hu
    exact ⟨u, by rw [PyDict.get?_set_ne _ _ hk, hu], id, id⟩
  · intro k u hu
    rw [PyDict.get?_set] at hu
    split_ifs at hu with hk
    · obtain rfl := Option.some.inj hu
      refine ⟨?_, x, hx, hk.symm⟩
      rintro ⟨p, hp, -⟩
      cases hp
    · exact h.named k u hu
  · intro r n u run hu hrun hcancelled
    rw [PyDict.get?_set] at hu
    split_ifs at hu with hk
    · obtain rfl := Option.some.inj hu
      obtain ⟨rfl, -⟩ := Prod.mk.inj hk
      exact .inl (.inr (hdesired run hrun hcancelled))
    · exact .inr ⟨u, hu⟩

structure Keeps (db db' : Database) : Prop where
  runs : ∀ r run', db'.runs.get? r = some run' → ∃ run, db.runs.get? r = some run ∧
    run'.desiredState = run.desiredState ∧ run'.currentAttemptId = run.currentAttemptId ∧
    run'.attemptCounter = run.attemptCounter
  kept : ∀ r run, db.runs.get? r = some run → (db'.runs.get? r).isSome
  attempts : ∀ a x', db'.attempts.get? a = some x' → ∃ x, db.attempts.get? a = some x ∧ x'.run = x.run ∧
    x'.number = x.number
  attemptsKept : ∀ a x, db.attempts.get? a = some x → (db'.attempts.get? a).isSome
  rows : ∀ row ∈ db'.outbox, ∀ a, row.event = .attemptCreated a → ∃ old ∈ db.outbox, old.event = row.event ∧
    old.run = row.run
  awaits : ∀ r, db.Awaits r → db'.Awaits r

theorem Keeps.attempt (h : Keeps db db') {a : ℕ} {x : Attempt} (hx : db.attempts.get? a = some x) :
    ∃ x', db'.attempts.get? a = some x' ∧ x'.run = x.run ∧ x'.number = x.number := by
  obtain ⟨x', hx'⟩ := Option.isSome_iff_exists.mp (h.attemptsKept a x hx)
  obtain ⟨y, hy, hrun, hnumber⟩ := h.attempts a x' hx'
  rw [hx] at hy
  obtain rfl := Option.some.inj hy
  exact ⟨x', hx', hrun, hnumber⟩

theorem Keeps.run (h : Keeps db db') {r : ℕ} {run : Run} (hrun : db.runs.get? r = some run) :
    ∃ run', db'.runs.get? r = some run' ∧ run'.desiredState = run.desiredState ∧
      run'.currentAttemptId = run.currentAttemptId ∧ run'.attemptCounter = run.attemptCounter := by
  obtain ⟨run', hrun'⟩ := Option.isSome_iff_exists.mp (h.kept r run hrun)
  obtain ⟨old, hold, hsame⟩ := h.runs r run' hrun'
  rw [hrun] at hold
  obtain rfl := Option.some.inj hold
  exact ⟨run', hrun', hsame⟩

theorem Sound.keeps (h : Sound db tasks minted) (hk : Keeps db db')
    (hended : ∀ r run', db'.runs.get? r = some run' → isTerminalRun run'.phase →
      (∃ run, db.runs.get? r = some run ∧ isTerminalRun run.phase) ∨ ∃ a x t, run'.currentAttemptId = some a ∧
        db.attempts.get? a = some x ∧ tasks.get? (r, x.number) = some t ∧ t.reported = true) :
    Sound db' tasks minted := by
  refine ⟨?_, ?_, ?_, ?_, ?_, ?_, ?_, ?_⟩
  · intro a x' hx'
    obtain ⟨x, hx, hrun, hnumber⟩ := hk.attempts a x' hx'
    obtain ⟨hlt, run, hr, hle, hcurrent⟩ := h.attempts a x hx
    obtain ⟨run', hrun', -, hc, hcounter⟩ := hk.run hr
    exact ⟨hlt, run', by rw [hrun, hrun'], by omega, by rw [hc]; exact hcurrent⟩
  · intro a b x' y' hx' hy' hrun hnumber
    obtain ⟨x, hx, hxr, hxn⟩ := hk.attempts a x' hx'
    obtain ⟨y, hy, hyr, hyn⟩ := hk.attempts b y' hy'
    exact h.unique a b x y hx hy (by omega) (by omega)
  · intro r run' a hrun' ha
    obtain ⟨run, hrun, -, hc, -⟩ := hk.runs r run' hrun'
    obtain ⟨x, hx, hxr⟩ := h.current r run a hrun (hc ▸ ha)
    obtain ⟨x', hx', hr, -⟩ := hk.attempt hx
    exact ⟨x', hx', hr.trans hxr⟩
  · intro row hrow a ha
    obtain ⟨old, hold, hevent, hr⟩ := hk.rows row hrow a ha
    obtain ⟨x, hx, hxr⟩ := h.rows old hold a (hevent.trans ha)
    obtain ⟨x', hx', hr', -⟩ := hk.attempt hx
    exact ⟨x', hx', by rw [hr', hxr, hr]⟩
  · intro name t ht
    obtain ⟨hstatus, x, hx, hname⟩ := h.named name t ht
    obtain ⟨x', hx', hr, hn⟩ := hk.attempt hx
    exact ⟨hstatus, x', hx', by rw [hr, hn, hname]⟩
  · intro a x' run' hx' hrun' hne
    obtain ⟨x, hx, hr, hn⟩ := hk.attempts a x' hx'
    obtain ⟨run, hrun, -, hc, -⟩ := hk.runs _ run' hrun'
    rw [hr] at hrun ⊢
    rw [hn]
    exact h.past a x run hx hrun (hc ▸ hne)
  · intro r run' hrun' hterminal
    rcases hended r run' hrun' hterminal with ⟨old, hold, hot⟩ | ⟨a, x, t, ha, hx, ht, hreported⟩
    · obtain ⟨a, x, t, ha, hx, ht, hreported⟩ := h.ended r old hold hot
      obtain ⟨run, hrun, -, hc, -⟩ := hk.runs r run' hrun'
      rw [hold] at hrun
      obtain rfl := Option.some.inj hrun
      obtain ⟨x', hx', -, hn⟩ := hk.attempt hx
      exact ⟨a, x', t, hc.trans ha, hx', by rw [hn, ht], hreported⟩
    · obtain ⟨x', hx', -, hn⟩ := hk.attempt hx
      exact ⟨a, x', t, ha, hx', by rw [hn, ht], hreported⟩
  · intro r run' hrun' hcancelled
    obtain ⟨run, hrun, hd, -⟩ := hk.runs r run' hrun'
    rcases h.cancelled r run hrun (hd ▸ hcancelled) with hrow | hall
    · exact .inl (hk.awaits r hrow)
    · exact .inr hall

theorem Sound.mono (h : Sound db tasks minted) {m : ℕ} (hm : minted ≤ m) : Sound db tasks m :=
  ⟨fun a x hx => ⟨(h.attempts a x hx).1.trans_le hm, (h.attempts a x hx).2⟩, h.unique, h.current, h.rows, h.named,
    h.past, h.ended, h.cancelled⟩

theorem keeps_append (db : Database) (r : ℕ) {e : Event} (he : ∀ a, e ≠ .attemptCreated a) :
    Keeps db (db.append r e) := by
  refine ⟨fun _ run h => ⟨run, h, rfl, rfl, rfl⟩, ?_, fun _ x h => ⟨x, h, rfl, rfl⟩, ?_, ?_, ?_⟩
  · intro r' run h
    exact Option.isSome_iff_exists.mpr ⟨run, h⟩
  · intro a x h
    exact Option.isSome_iff_exists.mpr ⟨x, h⟩
  · intro row hrow a ha
    rcases List.mem_append.mp hrow with hrow | hrow
    · exact ⟨row, hrow, rfl, rfl⟩
    · rw [List.mem_singleton.mp hrow] at ha
      exact absurd ha (he a)
  · rintro r' ⟨row, hrow, hrest⟩
    exact ⟨row, List.mem_append_left _ hrow, hrest⟩

theorem keeps_putRun {r : ℕ} {run : Run} (hrun : db.runs.get? r = some run) (p : RunPhase) :
    Keeps db (db.putRun r { run with phase := p }) := by
  refine ⟨?_, ?_, fun _ x h => ⟨x, h, rfl, rfl⟩, ?_, fun row hrow _ _ => ⟨row, hrow, rfl, rfl⟩, fun _ h => h⟩
  · intro r' run' h
    simp only [Database.putRun, PyDict.get?_set] at h
    split_ifs at h with hr
    · subst hr
      obtain rfl := Option.some.inj h
      exact ⟨run, hrun, rfl, rfl, rfl⟩
    · exact ⟨run', h, rfl, rfl, rfl⟩
  · intro r' run' h
    simp only [Database.putRun, PyDict.get?_set]
    split_ifs
    · rfl
    · exact Option.isSome_iff_exists.mpr ⟨run', h⟩
  · intro a x h
    exact Option.isSome_iff_exists.mpr ⟨x, h⟩

theorem keeps_putAttempt {a : ℕ} {x : Attempt} (hx : db.attempts.get? a = some x) (p : AttemptPhase) :
    Keeps db (db.putAttempt a { x with phase := p }) := by
  refine ⟨fun _ run h => ⟨run, h, rfl, rfl, rfl⟩, ?_, ?_, ?_, fun row hrow _ _ => ⟨row, hrow, rfl, rfl⟩, fun _ h => h⟩
  · intro r run h
    exact Option.isSome_iff_exists.mpr ⟨run, h⟩
  · intro b y h
    simp only [Database.putAttempt, PyDict.get?_set] at h
    split_ifs at h with hb
    · subst hb
      obtain rfl := Option.some.inj h
      exact ⟨x, hx, rfl, rfl⟩
    · exact ⟨y, h, rfl, rfl⟩
  · intro b y h
    simp only [Database.putAttempt, PyDict.get?_set]
    split_ifs
    · rfl
    · exact Option.isSome_iff_exists.mpr ⟨y, h⟩

theorem Keeps.trans {db'' : Database} (h : Keeps db db') (h' : Keeps db' db'') : Keeps db db'' := by
  refine ⟨?_, ?_, ?_, ?_, ?_, fun r hr => h'.awaits r (h.awaits r hr)⟩
  · intro r run'' hr
    obtain ⟨run', hr', h₁, h₂, h₃⟩ := h'.runs r run'' hr
    obtain ⟨run, hr₀, h₄, h₅, h₆⟩ := h.runs r run' hr'
    exact ⟨run, hr₀, h₁.trans h₄, h₂.trans h₅, h₃.trans h₆⟩
  · intro r run hr
    obtain ⟨run', hr'⟩ := Option.isSome_iff_exists.mp (h.kept r run hr)
    exact h'.kept r run' hr'
  · intro a x'' hx
    obtain ⟨x', hx', h₁, h₂⟩ := h'.attempts a x'' hx
    obtain ⟨x, hx₀, h₃, h₄⟩ := h.attempts a x' hx'
    exact ⟨x, hx₀, h₁.trans h₃, h₂.trans h₄⟩
  · intro a x hx
    obtain ⟨x', hx'⟩ := Option.isSome_iff_exists.mp (h.attemptsKept a x hx)
    exact h'.attemptsKept a x' hx'
  · intro row hrow a ha
    obtain ⟨old, hold, hevent, hr⟩ := h'.rows row hrow a ha
    obtain ⟨older, holder, hevent', hr'⟩ := h.rows old hold a (hevent.trans ha)
    exact ⟨older, holder, hevent'.trans hevent, hr'.trans hr⟩

theorem Sound.setPhase (h : Sound db tasks minted) {r : ℕ} {run : Run} (hrun : db.runs.get? r = some run) (p : RunPhase)
    (hp : isTerminalRun p → isTerminalRun run.phase ∨ ∃ a x t, run.currentAttemptId = some a ∧
      db.attempts.get? a = some x ∧ tasks.get? (r, x.number) = some t ∧ t.reported = true) :
    Sound ((db.putRun r { run with phase := p }).append r .phaseChanged) tasks minted := by
  refine h.keeps ((keeps_putRun hrun p).trans (keeps_append _ r (by simp))) ?_
  intro r' run' hr' hterminal
  simp only [Database.append, Database.putRun, PyDict.get?_set] at hr'
  split_ifs at hr' with he
  · subst he
    obtain rfl := Option.some.inj hr'
    rcases hp hterminal with hold | hnew
    · exact .inl ⟨run, hrun, hold⟩
    · exact .inr hnew
  · exact .inl ⟨run', hr', hterminal⟩

theorem Sound.setAttemptPhase (h : Sound db tasks minted) {a : ℕ} {x : Attempt} (hx : db.attempts.get? a = some x)
    (p : AttemptPhase) (r : ℕ) :
    Sound ((db.putAttempt a { x with phase := p }).append r .phaseChanged) tasks minted := by
  refine h.keeps ((keeps_putAttempt hx p).trans (keeps_append _ r (by simp))) ?_
  intro r' run' hr' hterminal
  exact .inl ⟨run', hr', hterminal⟩

theorem Sound.newAttempt (h : Sound db tasks minted) {r : ℕ} {run : Run} (hrun : db.runs.get? r = some run)
    (hphase : isTerminalRun run.phase = false ∨ run.phase = .failed)
    (hover : ∀ a, run.currentAttemptId = some a → ∃ x t, db.attempts.get? a = some x ∧
      tasks.get? (r, x.number) = some t ∧ t.Over) :
    Sound (((db.putAttempt minted ⟨r, run.attemptCounter + 1, .pendingDispatch⟩).putRun r (run.renewed minted)).append r
      (.attemptCreated minted)) tasks (minted + 1) := by
  have hfresh : ∀ a x, db.attempts.get? a = some x → a ≠ minted := by
    intro a x hx
    have := (h.attempts a x hx).1
    omega
  have hget : ∀ a x, ((db.attempts.set minted ⟨r, run.attemptCounter + 1, .pendingDispatch⟩).get? a = some x) →
      a = minted ∧ x = ⟨r, run.attemptCounter + 1, .pendingDispatch⟩ ∨ a ≠ minted ∧ db.attempts.get? a = some x := by
    intro a x hx
    rw [PyDict.get?_set] at hx
    split_ifs at hx with ha
    · exact .inl ⟨ha, (Option.some.inj hx).symm⟩
    · exact .inr ⟨ha, hx⟩
  have hold : ∀ a x, db.attempts.get? a = some x →
      (db.attempts.set minted ⟨r, run.attemptCounter + 1, .pendingDispatch⟩).get? a = some x := by
    intro a x hx
    rw [PyDict.get?_set_ne _ _ (hfresh a x hx), hx]
  have hnumber : ∀ a x, db.attempts.get? a = some x → x.run = r → x.number ≤ run.attemptCounter := by
    intro a x hx hr
    obtain ⟨-, run', hrun', hle, -⟩ := h.attempts a x hx
    rw [hr, hrun] at hrun'
    obtain rfl := Option.some.inj hrun'
    exact hle
  refine ⟨?_, ?_, ?_, ?_, ?_, ?_, ?_, ?_⟩
  · intro a x hx
    rcases hget a x hx with ⟨rfl, rfl⟩ | ⟨hne, hx⟩
    · exact ⟨by omega, run.renewed a, by simp [Database.append, Database.putRun], by simp [Run.renewed], rfl⟩
    · obtain ⟨hlt, run', hrun', hle, hcurrent⟩ := h.attempts a x hx
      refine ⟨by omega, ?_⟩
      simp only [Database.append, Database.putRun, Database.putAttempt, PyDict.get?_set]
      split_ifs with he
      · refine ⟨_, rfl, ?_, rfl⟩
        have := hnumber a x hx he
        simp only [Run.renewed]
        omega
      · exact ⟨run', hrun', hle, hcurrent⟩
  · intro a b x y hx hy hr hn
    rcases hget a x hx with ⟨ha, hxe⟩ | ⟨ha, hxo⟩
    · rcases hget b y hy with ⟨hb, hye⟩ | ⟨hb, hyo⟩
      · rw [ha, hb]
      · rw [hxe] at hr hn
        have := hnumber b y hyo hr.symm
        simp only at hn
        omega
    · rcases hget b y hy with ⟨hb, hye⟩ | ⟨hb, hyo⟩
      · rw [hye] at hr hn
        have := hnumber a x hxo hr
        simp only at hn
        omega
      · exact h.unique a b x y hxo hyo hr hn
  · intro r' run' a hrun' ha
    simp only [Database.append, Database.putRun, Database.putAttempt, PyDict.get?_set] at hrun' ⊢
    split_ifs at hrun' with he
    · obtain rfl := Option.some.inj hrun'
      obtain rfl : minted = a := by simpa [Run.renewed] using ha
      exact ⟨_, by rw [if_pos rfl], he.symm⟩
    · obtain ⟨x, hx, hr⟩ := h.current r' run' a hrun' ha
      exact ⟨x, by rw [if_neg (hfresh a x hx), hx], hr⟩
  · intro row hrow a ha
    rcases List.mem_append.mp hrow with hrow | hrow
    · obtain ⟨x, hx, hr⟩ := h.rows row hrow a ha
      exact ⟨x, hold a x hx, hr⟩
    · rw [List.mem_singleton.mp hrow] at ha ⊢
      obtain rfl : minted = a := by simpa using ha
      exact ⟨_, PyDict.get?_set_self _ _ _, rfl⟩
  · intro name t ht
    obtain ⟨hstatus, x, hx, hname⟩ := h.named name t ht
    exact ⟨hstatus, x, hold _ x hx, hname⟩
  · intro a x run' hx hrun' hne
    simp only [Database.append, Database.putRun, Database.putAttempt, PyDict.get?_set] at hrun'
    rcases hget a x hx with ⟨rfl, rfl⟩ | ⟨ha, hx⟩
    · rw [if_pos rfl] at hrun'
      obtain rfl := Option.some.inj hrun'
      exact absurd rfl hne
    · split_ifs at hrun' with he
      · -- the attempt before this one, or an earlier one
        by_cases hcur : run.currentAttemptId = some a
        · obtain ⟨y, t, hy, ht, hover⟩ := hover a hcur
          rw [hx] at hy
          obtain rfl := Option.some.inj hy
          exact ⟨t, by rw [he, ht], hover⟩
        · exact h.past a x run hx (he ▸ hrun) hcur
      · exact h.past a x run' hx hrun' hne
  · intro r' run' hrun' hterminal
    simp only [Database.append, Database.putRun, Database.putAttempt, PyDict.get?_set] at hrun'
    split_ifs at hrun' with he
    · obtain rfl := Option.some.inj hrun'
      simp only [Run.renewed] at hterminal
      rcases hphase with hp | hp
      · split_ifs at hterminal with hf
        · simp [isTerminalRun] at hterminal
        · rw [hp] at hterminal
          cases hterminal
      · rw [if_pos hp] at hterminal
        simp [isTerminalRun] at hterminal
    · obtain ⟨a, x, t, ha, hx, hrest⟩ := h.ended r' run' hrun' hterminal
      exact ⟨a, x, t, ha, hold a x hx, hrest⟩
  · intro r' run' hrun' hcancelled
    have hcancelled' : ∃ old, db.runs.get? r' = some old ∧ old.desiredState = some .cancelled := by
      simp only [Database.append, Database.putRun, Database.putAttempt, PyDict.get?_set] at hrun'
      split_ifs at hrun' with he
      · obtain rfl := Option.some.inj hrun'
        exact ⟨run, he ▸ hrun, hcancelled⟩
      · exact ⟨run', hrun', hcancelled⟩
    obtain ⟨old, hr, hd⟩ := hcancelled'
    rcases h.cancelled r' old hr hd with ⟨row, hrow, hrest⟩ | hall
    · exact .inl ⟨row, List.mem_append_left _ hrow, hrest⟩
    · exact .inr hall

theorem Sound.complete (h : Sound db tasks minted) {k : ℕ} {row : Row} (hk : db.outbox[k]? = some row)
    (hdone : row.event = .cancelRequested → ∀ n t, tasks.get? (row.run, n) = some t → t.Over) :
    Sound { db with outbox := db.outbox.modify k fun row => { row with processed := true } } tasks minted := by
  have hmem : ∀ new ∈ db.outbox.modify k (fun row => { row with processed := true }),
      ∃ old ∈ db.outbox, old.event = new.event ∧ old.run = new.run := by
    intro new hnew
    obtain ⟨j, hj⟩ := List.mem_iff_getElem?.mp hnew
    rw [List.getElem?_modify] at hj
    obtain ⟨old, hold, rfl⟩ := Option.map_eq_some_iff.mp hj
    refine ⟨old, List.mem_iff_getElem?.mpr ⟨j, hold⟩, ?_⟩
    split_ifs <;> exact ⟨rfl, rfl⟩
  refine ⟨h.attempts, h.unique, h.current, ?_, h.named, h.past, h.ended, ?_⟩
  · intro new hnew a ha
    obtain ⟨old, hold, hevent, hr⟩ := hmem new hnew
    rw [← hr]
    exact h.rows old hold a (hevent.trans ha)
  · intro r run hrun hcancelled
    rcases h.cancelled r run hrun hcancelled with ⟨old, hold, hr, hevent, hopen⟩ | hall
    · obtain ⟨j, hj⟩ := List.mem_iff_getElem?.mp hold
      by_cases hjk : k = j
      · subst hjk
        rw [hk] at hj
        obtain rfl := Option.some.inj hj
        exact .inr (hr ▸ hdone hevent)
      · refine .inl ⟨old, List.mem_iff_getElem?.mpr ⟨j, ?_⟩, hr, hevent, hopen⟩
        rw [List.getElem?_modify, hj]
        simp [hjk]
    · exact .inr hall

end Changes

structure Before (db₀ db : Database) : Prop where
  runs : ∀ r run₀, db₀.runs.get? r = some run₀ → ∃ run, db.runs.get? r = some run ∧
    run.desiredState = run₀.desiredState ∧
    (run₀.currentAttemptId.isSome → run.currentAttemptId = run₀.currentAttemptId) ∧
    (isTerminalRun run₀.phase → run.phase = run₀.phase)
  attempts : ∀ a x₀, db₀.attempts.get? a = some x₀ → ∃ x, db.attempts.get? a = some x ∧ x.run = x₀.run ∧
    x.number = x₀.number
  outbox : ∀ (k : ℕ) (row₀ : Row), db₀.outbox[k]? = some row₀ →
    ∃ row : Row, db.outbox[k]? = some row ∧ row.run = row₀.run ∧ row.event = row₀.event

theorem Before.refl (db : Database) : Before db db :=
  ⟨fun _ run h => ⟨run, h, rfl, fun _ => rfl, fun _ => rfl⟩, fun _ x h => ⟨x, h, rfl, rfl⟩,
    fun _ row h => ⟨row, h, rfl, rfl⟩⟩

theorem Before.trans {db db' db'' : Database} (h : Before db db') (h' : Before db' db'') : Before db db'' := by
  refine ⟨?_, ?_, ?_⟩
  · intro r run hrun
    obtain ⟨run', hrun', hd, hc, hp⟩ := h.runs r run hrun
    obtain ⟨run'', hrun'', hd', hc', hp'⟩ := h'.runs r run' hrun'
    refine ⟨run'', hrun'', hd'.trans hd, ?_, ?_⟩
    · intro hsome
      have hcur := hc hsome
      rw [hc' (by rw [hcur]; exact hsome), hcur]
    · intro hterminal
      have hphase := hp hterminal
      rw [hp' (by rw [hphase]; exact hterminal), hphase]
  · intro a x hx
    obtain ⟨x', hx', hr, hn⟩ := h.attempts a x hx
    obtain ⟨x'', hx'', hr', hn'⟩ := h'.attempts a x' hx'
    exact ⟨x'', hx'', hr'.trans hr, hn'.trans hn⟩
  · intro k row hrow
    obtain ⟨row', hrow', hr, he⟩ := h.outbox k row hrow
    obtain ⟨row'', hrow'', hr', he'⟩ := h'.outbox k row' hrow'
    exact ⟨row'', hrow'', hr'.trans hr, he'.trans he⟩

theorem before_append (db : Database) (r : ℕ) (e : Event) : Before db (db.append r e) := by
  refine ⟨fun _ run h => ⟨run, h, rfl, fun _ => rfl, fun _ => rfl⟩, fun _ x h => ⟨x, h, rfl, rfl⟩, ?_⟩
  intro k row hrow
  obtain ⟨hlt, -⟩ := List.getElem?_eq_some_iff.mp hrow
  exact ⟨row, by rw [Database.append, List.getElem?_append_left hlt, hrow], rfl, rfl⟩

theorem before_putRun {db : Database} {r : ℕ} {run : Run} (run' : Run) (hrun : db.runs.get? r = some run)
    (hd : run'.desiredState = run.desiredState)
    (hc : run.currentAttemptId.isSome → run'.currentAttemptId = run.currentAttemptId)
    (hp : isTerminalRun run.phase → run'.phase = run.phase) : Before db (db.putRun r run') := by
  refine ⟨?_, fun _ x h => ⟨x, h, rfl, rfl⟩, fun _ row h => ⟨row, h, rfl, rfl⟩⟩
  intro r' old hold
  simp only [Database.putRun, PyDict.get?_set]
  split_ifs with he
  · subst he
    rw [hrun] at hold
    obtain rfl := Option.some.inj hold
    exact ⟨run', rfl, hd, hc, hp⟩
  · exact ⟨old, hold, rfl, fun _ => rfl, fun _ => rfl⟩

theorem before_putAttempt {db : Database} {a : ℕ} {x' : Attempt}
    (hx : ∀ x, db.attempts.get? a = some x → x'.run = x.run ∧ x'.number = x.number) :
    Before db (db.putAttempt a x') := by
  refine ⟨fun _ run h => ⟨run, h, rfl, fun _ => rfl, fun _ => rfl⟩, ?_, fun _ row h => ⟨row, h, rfl, rfl⟩⟩
  intro b y hy
  simp only [Database.putAttempt, PyDict.get?_set]
  split_ifs with hb
  · subst hb
    exact ⟨x', rfl, hx y hy⟩
  · exact ⟨y, hy, rfl, rfl⟩

structure Pass (db₀ : Database) (s : State) : Prop where
  before : Before db₀ s.db
  kept : Sound db₀ s.tasks s.minted
  session : Sound s.db s.tasks s.minted

def legalRun : RunPhase → List RunPhase → Bool
  | _, [] => true
  | p, q :: qs => decide (q ∈ runTransitions p) && legalRun q qs

def legalAttempt : AttemptPhase → List AttemptPhase → Bool
  | _, [] => true
  | p, q :: qs => decide (q ∈ attemptTransitions p) && legalAttempt q qs

theorem runPath_legal (p q : RunPhase) :
    ∃ ps, runPath p q = some ps ∧ legalRun p ps = true ∧ ∀ x ∈ ps, isTerminalRun x = true → isTerminalRun q = true := by
  cases p <;> cases q <;> exact ⟨_, rfl, by decide, by decide⟩

theorem attemptPath_legal (p q : AttemptPhase) : ∃ ps, attemptPath p q = some ps ∧ legalAttempt p ps = true := by
  cases p <;> cases q <;> exact ⟨_, rfl, by decide⟩

theorem not_terminal_of_mem {p q : RunPhase} (h : q ∈ runTransitions p) : isTerminalRun p = false := by
  cases p <;> first | rfl | simp [runTransitions] at h

theorem terminal_of_phases {q : CellPhase} {a : AttemptPhase} {r : RunPhase} (h : phasesForCell q = some (a, r))
    (hr : isTerminalRun r = true) : q.terminal = true := by
  cases q with
  | pending | running =>
    obtain ⟨-, rfl⟩ := Prod.mk.inj (Option.some.inj h)
    cases hr
  | succeeded | failed | cancelled | cleaned b => rfl
  | other => cases h

def Reported (s : State) (r : ℕ) : Prop :=
  ∃ run a x t, s.db.runs.get? r = some run ∧ run.currentAttemptId = some a ∧ s.db.attempts.get? a = some x ∧
    s.tasks.get? (r, x.number) = some t ∧ t.reported = true

section Pass

variable {db₀ : Database} {s : State}

theorem Pass.transitionRun (h : Pass db₀ s) {r : ℕ} {run : Run} (hrun : s.db.runs.get? r = some run) {p : RunPhase}
    (hp : p ∈ runTransitions run.phase) (hreported : isTerminalRun p → Reported s r) :
    ∃ t, (transitionRun r p).run s = (.ok (), t) ∧ Pass db₀ t ∧ t.tasks = s.tasks ∧
      t.db.runs.get? r = some { run with phase := p } ∧ (Reported s r → Reported t r) := by
  refine ⟨{ s with db := (s.db.putRun r { run with phase := p }).append r .phaseChanged }, ?_, ⟨?_, h.kept, ?_⟩, rfl,
    ?_, ?_⟩
  · unfold Managed.transitionRun
    rw [run_get_bind, hrun]
    simp only [run_ite]
    rw [if_neg (by simp [hp])]
    rfl
  · refine h.before.trans ((before_putRun { run with phase := p } hrun rfl (fun _ => rfl) ?_).trans
      (before_append _ _ _))
    intro hterminal
    rw [not_terminal_of_mem hp] at hterminal
    cases hterminal
  · refine h.session.setPhase hrun p ?_
    intro hterminal
    obtain ⟨run', a, x, t, hrun', ha, hx, ht, hrep⟩ := hreported hterminal
    rw [hrun] at hrun'
    obtain rfl := Option.some.inj hrun'
    exact .inr ⟨a, x, t, ha, hx, ht, hrep⟩
  · simp [Database.append, Database.putRun]
  · rintro ⟨run', a, x, t, hrun', ha, hx, ht, hrep⟩
    rw [hrun] at hrun'
    obtain rfl := Option.some.inj hrun'
    exact ⟨{ run with phase := p }, a, x, t, by simp [Database.append, Database.putRun], ha, hx, ht, hrep⟩

theorem Pass.walkRun {r : ℕ} {ps : List RunPhase} (h : Pass db₀ s) {run : Run} (hrun : s.db.runs.get? r = some run)
    (hlegal : legalRun run.phase ps = true) (hreported : ∀ p ∈ ps, isTerminalRun p = true → Reported s r) :
    ∃ t, (walkRun r ps).run s = (.ok (), t) ∧ Pass db₀ t ∧ t.tasks = s.tasks := by
  induction ps generalizing s run with
  | nil => exact ⟨s, rfl, h, rfl⟩
  | cons p ps ih =>
    simp only [legalRun, Bool.and_eq_true, decide_eq_true_eq] at hlegal
    obtain ⟨t, hstep, hpass, htasks, hrun', hrep⟩ :=
      h.transitionRun hrun hlegal.1 (hreported p List.mem_cons_self)
    obtain ⟨u, hwalk, hpass', htasks'⟩ := ih hpass hrun' hlegal.2
      fun q hq hterminal => hrep (hreported q (List.mem_cons_of_mem _ hq) hterminal)
    exact ⟨u, (run_bind_ok hstep _).trans hwalk, hpass', htasks'.trans htasks⟩

theorem Pass.walkAttempt {a : ℕ} {ps : List AttemptPhase} (h : Pass db₀ s) {x : Attempt}
    (hx : s.db.attempts.get? a = some x) (hlegal : legalAttempt x.phase ps = true) :
    ∃ t, (walkAttempt a ps).run s = (.ok (), t) ∧ Pass db₀ t ∧ t.tasks = s.tasks ∧ t.db.runs = s.db.runs ∧
      (∃ x', t.db.attempts.get? a = some x' ∧ x'.number = x.number) := by
  induction ps generalizing s x with
  | nil => exact ⟨s, rfl, h, rfl, rfl, x, hx, rfl⟩
  | cons p ps ih =>
    simp only [legalAttempt, Bool.and_eq_true, decide_eq_true_eq] at hlegal
    have hstep : (transitionAttempt a p).run s =
        (.ok (), { s with db := (s.db.putAttempt a { x with phase := p }).append x.run .phaseChanged }) := by
      unfold transitionAttempt
      rw [run_get_bind, hx]
      simp only [run_ite]
      rw [if_neg (by simp [hlegal.1])]
      rfl
    have hpass : Pass db₀ { s with db := (s.db.putAttempt a { x with phase := p }).append x.run .phaseChanged } := by
      refine ⟨h.before.trans ((before_putAttempt ?_).trans (before_append _ _ _)), h.kept,
        h.session.setAttemptPhase hx p x.run⟩
      intro y hy
      rw [hx] at hy
      obtain rfl := Option.some.inj hy
      exact ⟨rfl, rfl⟩
    obtain ⟨u, hwalk, hpass', htasks, hruns, hnum⟩ := ih hpass (x := { x with phase := p })
      (by simp [Database.append, Database.putAttempt]) hlegal.2
    exact ⟨u, (run_bind_ok hstep _).trans hwalk, hpass', htasks, hruns, hnum⟩

theorem Pass.syncStatus (h : Pass db₀ s) {name : ℕ × ℕ} {t : Task} (ht : s.tasks.get? name = some t) :
    ∃ u, (syncStatus name t).run s = (.ok (), u) ∧ Pass db₀ u ∧ u.tasks = s.tasks := by
  unfold Managed.syncStatus
  rw [run_get_bind]
  split
  · rename_i attemptTarget runTarget run x hphases hrun hx
    rw [run_ite]
    split_ifs with hother
    · exact ⟨s, rfl, h, rfl⟩
    · simp only [not_or, not_not] at hother
      obtain ⟨as, has, hal⟩ := attemptPath_legal x.phase attemptTarget
      obtain ⟨rs, hrs, hrl, hrt⟩ := runPath_legal run.phase runTarget
      obtain ⟨v, hwalk, hpass, htasks, hruns, x', hx', hnumber⟩ := h.walkAttempt hx hal
      have hadvance : (advanceAttempt t.attemptId x attemptTarget).run s = (.ok (), v) := by
        rw [advanceAttempt, has]
        exact hwalk
      obtain ⟨u, hwalk', hpass', htasks'⟩ := hpass.walkRun (r := name.1)
        (by rw [hruns]; exact hrun) hrl (by
          intro p hp hterminal
          obtain ⟨hstatus, y, hy, hname⟩ := h.session.named name t ht
          rw [hx] at hy
          obtain rfl := Option.some.inj hy
          have hreported : t.reported = true := by
            apply hstatus
            obtain ⟨q, hq, hcell⟩ := Option.bind_eq_some_iff.mp hphases
            exact ⟨q, hq, terminal_of_phases hcell (hrt p hp hterminal)⟩
          refine ⟨run, t.attemptId, x', t, by rw [hruns]; exact hrun, hother.2, hx', ?_, hreported⟩
          rw [htasks, hnumber, ← hother.1]
          rw [← hname] at ht
          exact ht)
      refine ⟨u, ?_, hpass', htasks'.trans htasks⟩
      rw [run_bind_ok hadvance, advanceRun, hrs]
      exact hwalk'
  · exact ⟨s, rfl, h, rfl⟩

theorem Pass.syncStatuses {tasks : List ((ℕ × ℕ) × Task)} (h : Pass db₀ s)
    (htasks : ∀ e ∈ tasks, s.tasks.get? e.1 = some e.2) : Pass db₀ ((syncStatuses tasks).run s).2 := by
  induction tasks generalizing s with
  | nil => exact h
  | cons e tasks ih =>
    obtain ⟨u, hrun, hpass, hsame⟩ := h.syncStatus (htasks e List.mem_cons_self)
    have hok : ((Managed.syncStatus e.1 e.2).tryExcept fun _ => pure ()).run s = (.ok (), u) := by
      rw [run_tryExcept, hrun]
    have hbind : (Managed.syncStatuses (e :: tasks)).run s = (Managed.syncStatuses tasks).run u := run_bind_ok hok _
    rw [hbind]
    refine ih hpass ?_
    intro e' he'
    rw [hsame]
    exact htasks e' (List.mem_cons_of_mem _ he')

def Reached (s : State) (r : ℕ) : Prop := ∀ n t, s.tasks.get? (r, n) = some t → t.Over

theorem Pass.setTask (h : Pass db₀ s) {name : ℕ × ℕ} {t : Task} (ht : s.tasks.get? name = some t) :
    Pass db₀ { s with tasks := s.tasks.set name { t with desiredState := .cancelled } } := by
  have hstatus := (h.session.named name t ht).1
  exact ⟨h.before, h.kept.setTask ht rfl (fun _ => .inr rfl) id hstatus,
    h.session.setTask ht rfl (fun _ => .inr rfl) id hstatus⟩

theorem Pass.newAttempt (h : Pass db₀ s) {r : ℕ} {run : Run} (hrun : s.db.runs.get? r = some run)
    (hfirst : run.currentAttemptId = none) : Pass db₀ ((newAttempt r run).run s).2 := by
  have hopen : isTerminalRun run.phase = false := by
    cases hp : isTerminalRun run.phase with
    | false => rfl
    | true =>
      obtain ⟨a, x, t, ha, -⟩ := h.session.ended r run hrun hp
      rw [hfirst] at ha
      cases ha
  have hphase : run.phase ≠ .failed := by
    intro hp
    rw [hp] at hopen
    cases hopen
  unfold Managed.newAttempt
  rw [run_ite, if_neg (by simp [hopen])]
  refine ⟨?_, h.kept.mono (Nat.le_succ _), h.session.newAttempt hrun (.inl hopen) (by simp [hfirst])⟩
  refine h.before.trans (((before_putAttempt ?_).trans (before_putRun (run.renewed s.minted) hrun ?_ ?_ ?_)).trans
    (before_append _ _ _))
  · intro x hx
    have := (h.session.attempts _ x hx).1
    omega
  · rfl
  · simp [hfirst]
  · simp [hopen]

theorem Pass.settle (h : Pass db₀ s) (f : Fate) : Pass db₀ (f.settle.run s).2 := by
  cases f <;> exact h

def RowOf (db₀ : Database) (k : ℕ) (row : Row) : Prop := db₀.outbox[k]? = some row

theorem Pass.applySandboxtask (h : Pass db₀ s) {k : ℕ} {row : Row} (hrow : RowOf db₀ k row) {a : ℕ} {x : Attempt}
    {run : Run} (he : row.event = .attemptCreated a) (hx : s.db.attempts.get? a = some x)
    (hrun : s.db.runs.get? row.run = some run) (f : Fate) :
    Pass db₀ ((applySandboxtask f (row.run, x.number) a (manifestState run)).run s).2 ∧
      ((applySandboxtask f (row.run, x.number) a (manifestState run)).run s).2.db = s.db := by
  obtain ⟨x₀, hx₀, hr₀⟩ := h.kept.rows row (List.mem_iff_getElem?.mpr ⟨k, hrow⟩) a he
  obtain ⟨x', hx', hr, hn⟩ := h.before.attempts a x₀ hx₀
  rw [hx] at hx'
  obtain rfl := Option.some.inj hx'
  have hname : x.run = row.run := hr.trans hr₀
  unfold Managed.applySandboxtask
  rw [run_get_bind, run_ite]
  split_ifs with hf
  · exact ⟨h, rfl⟩
  · cases ht : s.tasks.get? (row.run, x.number) with
    | none =>
      rw [run_modify_bind]
      have hsession : Sound s.db (s.tasks.set (row.run, x.number) ⟨a, manifestState run, none, false⟩) s.minted := by
        rw [← hname] at ht hrun ⊢
        refine h.session.createTask hx ht ?_
        intro run' hrun' hcancelled
        rw [hrun] at hrun'
        obtain rfl := Option.some.inj hrun'
        simp [manifestState, hcancelled]
      have hkept : Sound db₀ (s.tasks.set (row.run, x.number) ⟨a, manifestState run, none, false⟩) s.minted := by
        rw [hn] at ht ⊢
        rw [← hr₀] at ht hrun ⊢
        refine h.kept.createTask hx₀ ht ?_
        intro run₀ hrun₀ hcancelled
        obtain ⟨run', hrun', hd, -⟩ := h.before.runs _ run₀ hrun₀
        rw [hrun] at hrun'
        obtain rfl := Option.some.inj hrun'
        simp [manifestState, hd, hcancelled]
      have hpass : Pass db₀ { s with tasks := s.tasks.set (row.run, x.number) ⟨a, manifestState run, none, false⟩ } :=
        ⟨h.before, hkept, hsession⟩
      exact ⟨hpass.settle f, by cases f <;> rfl⟩
    | some t =>
      simp only [run_ite]
      split_ifs with hid
      · exact ⟨h, rfl⟩
      · exact ⟨h.settle f, by cases f <;> rfl⟩

theorem Pass.handleAttemptCreated (h : Pass db₀ s) {k : ℕ} {row : Row} (hrow : RowOf db₀ k row) {a : ℕ}
    (he : row.event = .attemptCreated a) (f : Fate) : Pass db₀ ((handleAttemptCreated row.run a f).run s).2 := by
  unfold Managed.handleAttemptCreated
  rw [run_get_bind]
  split
  · rename_i x run hx hrun
    obtain ⟨hpass, hdb⟩ := h.applySandboxtask hrow he hx hrun f
    rw [run_bind]
    rcases happly : (Managed.applySandboxtask f (row.run, x.number) a (manifestState run)).run s with ⟨res, t⟩
    rw [happly] at hpass hdb
    cases res with
    | error e => exact hpass
    | ok u =>
      simp only [run_ite]
      split_ifs with hphase
      · obtain ⟨v, hrun', hpass', -⟩ := hpass.transitionRun (p := .queued) (by rw [hdb]; exact hrun)
          (by simp [hphase, runTransitions]) (by simp [isTerminalRun])
        rw [hrun']
        exact hpass'
      · exact hpass
  · exact h

theorem Pass.handleCancel (h : Pass db₀ s) (r : ℕ) (f : Fate) :
    Pass db₀ ((handleCancel r f).run s).2 ∧
      ∀ t, (handleCancel r f).run s = (.ok (), t) → Reached t r ∧ t.db = s.db := by
  unfold Managed.handleCancel
  rw [run_get_bind]
  cases hrun : s.db.runs.get? r with
  | none =>
    refine ⟨h, ?_⟩
    intro t ht
    cases ht
  | some run =>
    -- the tasks of earlier attempts are over, so that only the current one counts
    have hpast : ∀ n t, s.tasks.get? (r, n) = some t → run.currentAttemptId ≠ some t.attemptId → t.Over := by
      intro n t ht hne
      obtain ⟨-, x, hx, hname⟩ := h.session.named _ t ht
      obtain ⟨hxr, hxn⟩ := Prod.mk.inj hname
      obtain ⟨t', ht', hover⟩ := h.session.past _ x run hx (by rw [hxr]; exact hrun) hne
      rw [hxr, hxn, ht] at ht'
      exact Option.some.inj ht' ▸ hover
    cases hcur : run.currentAttemptId with
    | none =>
      simp only [hcur]
      refine ⟨h, ?_⟩
      intro t ht
      obtain rfl : s = t := (Prod.mk.inj ht).2
      exact ⟨fun n t ht => hpast n t ht (by simp [hcur]), rfl⟩
    | some a =>
      simp only [hcur]
      obtain ⟨x, hx, hxr⟩ := h.session.current r run a hrun hcur
      rw [hx]
      unfold Managed.cancelSandboxtask
      simp only [run_get_bind, run_ite]
      split_ifs with hf
      · refine ⟨h, ?_⟩
        intro t ht
        cases ht
      · have hname : ∀ n t, s.tasks.get? (r, n) = some t → n ≠ x.number → t.Over := by
          intro n t ht hne
          apply hpast n t ht
          intro hcur'
          rw [hcur] at hcur'
          obtain ⟨-, y, hy, hyname⟩ := h.session.named _ t ht
          rw [← Option.some.inj hcur', hx] at hy
          obtain rfl := Option.some.inj hy
          exact hne (Prod.mk.inj hyname).2.symm
        cases ht : s.tasks.get? (r, x.number) with
        | none =>
          refine ⟨h.settle f, ?_⟩
          intro t hrun'
          obtain rfl : s = t := by
            cases f <;> simp_all [Fate.settle]
          refine ⟨?_, rfl⟩
          intro n t ht'
          apply hname n t ht'
          rintro rfl
          rw [ht] at ht'
          cases ht'
        | some u =>
          rw [run_modify_bind]
          refine ⟨(h.setTask ht).settle f, ?_⟩
          intro t hrun'
          obtain rfl : { s with tasks := s.tasks.set (r, x.number) { u with desiredState := .cancelled } } = t := by
            cases f <;> simp_all [Fate.settle]
          refine ⟨?_, rfl⟩
          intro n t ht'
          simp only [PyDict.get?_set] at ht'
          split_ifs at ht' with hk
          · exact Option.some.inj ht' ▸ .inr rfl
          · apply hname n t ht'
            rintro rfl
            exact hk rfl

theorem Pass.complete (h : Pass db₀ s) {k : ℕ} {row : Row} (hrow : RowOf db₀ k row)
    (hdone : row.event = .cancelRequested → Reached s row.run) : Pass db₀ ((completeOutbox k).run s).2 := by
  obtain ⟨row', hrow', hr, he⟩ := h.before.outbox k row hrow
  refine ⟨h.before.trans ⟨fun _ run h => ⟨run, h, rfl, fun _ => rfl, fun _ => rfl⟩, fun _ x h => ⟨x, h, rfl, rfl⟩, ?_⟩,
    h.kept, h.session.complete hrow' ?_⟩
  · intro j old hold
    change ∃ row : Row, (s.db.outbox.modify k fun row => { row with processed := true })[j]? = some row ∧ _
    rw [List.getElem?_modify, hold]
    refine ⟨_, rfl, ?_⟩
    split_ifs <;> exact ⟨rfl, rfl⟩
  · intro hevent n t ht
    exact hdone (he ▸ hevent) n t (hr ▸ ht)

theorem Pass.handle (h : Pass db₀ s) {k : ℕ} {row : Row} (hrow : RowOf db₀ k row) (f : Fate) :
    Pass db₀ ((handle row f).run s).2 ∧
      ∀ t, (handle row f).run s = (.ok (), t) → row.event = .cancelRequested → Reached t row.run := by
  unfold Managed.handle
  cases he : row.event with
  | runAccepted =>
    refine ⟨?_, by simp⟩
    unfold Managed.handleRunAccepted
    rw [run_get_bind]
    cases hrun : s.db.runs.get? row.run with
    | none => exact h
    | some run =>
      simp only [run_ite]
      split_ifs with hcur
      · exact h.newAttempt hrun hcur
      · exact h
  | attemptCreated a => exact ⟨h.handleAttemptCreated hrow he f, by simp⟩
  | cancelRequested =>
    obtain ⟨hpass, hreached⟩ := h.handleCancel row.run f
    exact ⟨hpass, fun t ht _ => (hreached t ht).1⟩
  | phaseChanged => exact ⟨h, by simp⟩

theorem Pass.handleRow (h : Pass db₀ s) {k : ℕ} {row : Row} (hrow : RowOf db₀ k row) (f : Fate) :
    ∃ t, (handleRow k row f).run s = (.ok (), t) ∧ Pass db₀ t := by
  obtain ⟨hpass, hreached⟩ := h.handle hrow f
  unfold Managed.handleRow
  rw [run_tryExcept, run_bind]
  rcases hrun : (Managed.handle row f).run s with ⟨res, t⟩
  rw [hrun] at hpass hreached
  cases res with
  | error e => exact ⟨t, rfl, hpass⟩
  | ok u => exact ⟨_, rfl, hpass.complete hrow (hreached t rfl)⟩

theorem Pass.handleRows {rows : List (ℕ × Row)} (h : Pass db₀ s) (hrows : ∀ e ∈ rows, RowOf db₀ e.1 e.2)
    (fate : ℕ → Fate) : Pass db₀ ((handleRows fate rows).run s).2 := by
  induction rows generalizing s with
  | nil => exact h
  | cons e rows ih =>
    obtain ⟨t, hrun, hpass⟩ := h.handleRow (hrows e List.mem_cons_self) (fate e.1)
    have hbind : (Managed.handleRows fate (e :: rows)).run s = (Managed.handleRows fate rows).run t :=
      run_bind_ok hrun _
    rw [hbind]
    exact ih hpass fun e' he' => hrows e' (List.mem_cons_of_mem _ he')

theorem rowOf_of_pending {db : Database} {batchSize : ℕ} {e : ℕ × Row} (h : e ∈ pendingRows db batchSize) :
    RowOf db e.1 e.2 := by
  have hmem := List.mem_of_mem_filter (List.mem_of_mem_take h)
  obtain ⟨k, hk⟩ := List.mem_iff_getElem?.mp hmem
  rw [List.getElem?_mapIdx] at hk
  obtain ⟨row, hrow, rfl⟩ := Option.map_eq_some_iff.mp hk
  exact hrow

theorem Sound.runOnce (h : Sound s.db s.tasks s.minted) (batchSize : ℕ) (fate : ℕ → Fate) (listed committed : Bool) :
    Sound (runOnce batchSize fate listed committed s).db (runOnce batchSize fate listed committed s).tasks
        (runOnce batchSize fate listed committed s).minted ∧
      Before s.db (runOnce batchSize fate listed committed s).db := by
  have hstart : Pass s.db s := ⟨.refl _, h, h⟩
  have hrows : Pass s.db ((Managed.handleRows fate (pendingRows s.db batchSize)).run s).2 :=
    hstart.handleRows (fun _ he => rowOf_of_pending he) fate
  have hsync := hrows.syncStatuses fun e he => PyDict.get?_eq_some.mpr he
  unfold Managed.runOnce
  cases listed with
  | false => exact ⟨hrows.kept, .refl _⟩
  | true =>
    cases committed with
    | false => exact ⟨hsync.kept, .refl _⟩
    | true => exact ⟨hsync.session, hsync.before⟩

end Pass

namespace State

variable {s t : State} {a : Action} {out : Outcome}

/-- No run goes on to another attempt while the task of the current one still has to run and to be told of a cancel.
-/
def settledRetry (s : State) : Action → Bool
  | .retry r =>
    match s.db.runs.get? r with
    | none => true
    | some run =>
      (isTerminalRun run.phase && run.phase ≠ .failed) ||
        match run.currentAttemptId with
        | none => true
        | some a =>
          match s.db.attempts.get? a with
          | none => false
          | some x =>
            match s.tasks.get? (r, x.number) with
            | none => false
            | some t => t.reported || t.desiredState = .cancelled
  | _ => true

abbrev Held (s : State) : Prop := Sound s.db s.tasks s.minted

theorem Held.start (h : Start s) : s.Held := by
  obtain ⟨hdb, htasks⟩ := h
  unfold Held
  rw [hdb, htasks]
  refine ⟨?_, ?_, ?_, ?_, ?_, ?_, ?_, ?_⟩ <;> simp

theorem Held.create (h : s.Held) {r : ℕ} (hr : s.db.runs.get? r = none) :
    Sound ((s.db.putRun r {}).append r .runAccepted) s.tasks s.minted := by
  have hget : ∀ r' run, ((s.db.runs.set r {}).get? r' = some run) →
      r' = r ∧ run = {} ∨ r' ≠ r ∧ s.db.runs.get? r' = some run := by
    intro r' run hrun
    rw [PyDict.get?_set] at hrun
    split_ifs at hrun with he
    · exact .inl ⟨he, (Option.some.inj hrun).symm⟩
    · exact .inr ⟨he, hrun⟩
  refine ⟨?_, h.unique, ?_, ?_, h.named, ?_, ?_, ?_⟩
  · intro a x hx
    obtain ⟨hlt, run, hrun, hrest⟩ := h.attempts a x hx
    refine ⟨hlt, run, ?_, hrest⟩
    have hne : x.run ≠ r := by
      rintro he
      rw [he, hr] at hrun
      cases hrun
    simp only [Database.append, Database.putRun]
    rw [PyDict.get?_set_ne _ _ hne, hrun]
  · intro r' run a hrun ha
    rcases hget r' run hrun with ⟨-, rfl⟩ | ⟨-, hrun⟩
    · cases ha
    · exact h.current r' run a hrun ha
  · intro row hrow a ha
    rcases List.mem_append.mp hrow with hrow | hrow
    · exact h.rows row hrow a ha
    · rw [List.mem_singleton.mp hrow] at ha
      cases ha
  · intro a x run hx hrun hne
    rcases hget _ run hrun with ⟨he, -⟩ | ⟨-, hrun⟩
    · obtain ⟨-, old, hold, -⟩ := h.attempts a x hx
      rw [he, hr] at hold
      cases hold
    · exact h.past a x run hx hrun hne
  · intro r' run hrun hterminal
    rcases hget r' run hrun with ⟨-, rfl⟩ | ⟨-, hrun⟩
    · cases hterminal
    · exact h.ended r' run hrun hterminal
  · intro r' run hrun hcancelled
    rcases hget r' run hrun with ⟨-, rfl⟩ | ⟨-, hrun⟩
    · cases hcancelled
    · rcases h.cancelled r' run hrun hcancelled with ⟨row, hrow, hrest⟩ | hall
      · exact .inl ⟨row, List.mem_append_left _ hrow, hrest⟩
      · exact .inr hall

theorem Held.cancel (h : s.Held) {r : ℕ} {run : Run} (hrun : s.db.runs.get? r = some run) :
    ((requestCancel r run).run s).2.Held := by
  have hget : ∀ r' run', ((s.db.runs.set r
      (if isTerminalRun run.phase then run else { run with desiredState := some .cancelled })).get? r' = some run') →
      ∃ old, s.db.runs.get? r' = some old ∧ run'.phase = old.phase ∧ run'.currentAttemptId = old.currentAttemptId ∧
        run'.attemptCounter = old.attemptCounter ∧ (r' ≠ r → run'.desiredState = old.desiredState) := by
    intro r' run' hrun'
    rw [PyDict.get?_set] at hrun'
    split_ifs at hrun' with he hterminal
    · exact ⟨run, he ▸ hrun, by rw [← Option.some.inj hrun'], by rw [← Option.some.inj hrun'],
        by rw [← Option.some.inj hrun'], fun hne => absurd he hne⟩
    · exact ⟨run, he ▸ hrun, by rw [← Option.some.inj hrun'], by rw [← Option.some.inj hrun'],
        by rw [← Option.some.inj hrun'], fun hne => absurd he hne⟩
    · exact ⟨run', hrun', rfl, rfl, rfl, fun _ => rfl⟩
  refine ⟨?_, h.unique, ?_, ?_, h.named, ?_, ?_, ?_⟩
  · intro a x hx
    obtain ⟨hlt, old, hold, hle, hcurrent⟩ := h.attempts a x hx
    refine ⟨hlt, ?_⟩
    change ∃ run', (s.db.runs.set r _).get? x.run = some run' ∧ _
    rw [PyDict.get?_set]
    split_ifs with he hterminal
    · rw [he, hrun] at hold
      obtain rfl := Option.some.inj hold
      exact ⟨run, rfl, hle, hcurrent⟩
    · rw [he, hrun] at hold
      obtain rfl := Option.some.inj hold
      exact ⟨_, rfl, hle, hcurrent⟩
    · exact ⟨old, hold, hle, hcurrent⟩
  · intro r' run' a hrun' ha
    obtain ⟨old, hold, -, hc, -⟩ := hget r' run' hrun'
    exact h.current r' old a hold (hc ▸ ha)
  · intro row hrow a ha
    rcases List.mem_append.mp hrow with hrow | hrow
    · exact h.rows row hrow a ha
    · rw [List.mem_singleton.mp hrow] at ha
      cases ha
  · intro a x run' hx hrun' hne
    obtain ⟨old, hold, -, hc, -⟩ := hget _ run' hrun'
    exact h.past a x old hx hold (hc ▸ hne)
  · intro r' run' hrun' hterminal
    obtain ⟨old, hold, hp, hc, -⟩ := hget r' run' hrun'
    obtain ⟨a, x, t, ha, hrest⟩ := h.ended r' old hold (hp ▸ hterminal)
    exact ⟨a, x, t, hc.trans ha, hrest⟩
  · intro r' run' hrun' hcancelled
    by_cases he : r' = r
    · exact .inl ⟨⟨r, .cancelRequested, false⟩, List.mem_append_right _ List.mem_cons_self, he.symm, rfl, rfl⟩
    · obtain ⟨old, hold, -, -, -, hd⟩ := hget r' run' hrun'
      rcases h.cancelled r' old hold (hd he ▸ hcancelled) with ⟨row, hrow, hrest⟩ | hall
      · exact .inl ⟨row, List.mem_append_left _ hrow, hrest⟩
      · exact .inr hall

theorem Held.retry (h : s.Held) {r : ℕ} {run : Run} (hok : settledRetry s (.retry r))
    (hrun : s.db.runs.get? r = some run) : ((newAttempt r run).run s).2.Held := by
  unfold newAttempt
  rw [run_ite]
  split_ifs with hrefused
  · exact h
  · have hphase : isTerminalRun run.phase = false ∨ run.phase = .failed := by
      cases hp : isTerminalRun run.phase with
      | false => exact .inl rfl
      | true =>
        right
        by_contra hne
        exact hrefused ⟨hp, hne⟩
    refine h.newAttempt hrun hphase ?_
    intro a ha
    simp only [settledRetry, hrun, ha, Bool.or_eq_true, Bool.and_eq_true, decide_eq_true_eq] at hok
    rcases hok with hok | hok
    · exact absurd hok hrefused
    · split at hok
      · cases hok
      · rename_i x hx
        split at hok
        · cases hok
        · rename_i t ht
          refine ⟨x, t, hx, ht, ?_⟩
          simpa [Task.Over] using hok

theorem Held.next (h : s.Held) (hok : settledRetry s a) (hn : State.next s a = some (t, out)) : t.Held := by
  cases a with
  | create r =>
    simp only [State.next] at hn
    split at hn
    · rename_i hr
      obtain ⟨rfl, -⟩ := Prod.mk.inj (Option.some.inj hn)
      exact h.create hr
    · cases hn
  | cancel r =>
    simp only [State.next, call] at hn
    split at hn
    · cases hn
    · rename_i run hrun
      obtain ⟨rfl, -⟩ := Prod.mk.inj (Option.some.inj hn)
      exact h.cancel hrun
  | retry r =>
    simp only [State.next, call] at hn
    split at hn
    · cases hn
    · rename_i run hrun
      obtain ⟨rfl, -⟩ := Prod.mk.inj (Option.some.inj hn)
      exact h.retry hok hrun
  | pass batchSize fate listed committed =>
    simp only [State.next] at hn
    obtain ⟨rfl, -⟩ := Prod.mk.inj (Option.some.inj hn)
    exact (Sound.runOnce h batchSize fate listed committed).1
  | report name phase =>
    simp only [State.next] at hn
    split at hn
    · cases hn
    · rename_i u hu
      obtain ⟨rfl, -⟩ := Prod.mk.inj (Option.some.inj hn)
      refine h.setTask hu rfl ?_ ?_ ?_
      · rintro (hr | hd)
        · exact .inl (by simp [hr])
        · exact .inr hd
      · intro hr
        simp [hr]
      · rintro ⟨p, hp, hterminal⟩
        obtain rfl := Option.some.inj hp
        simp [hterminal]

structure Absorbs (s t : State) (a : Action) : Prop where
  desired : ∀ r run, s.db.runs.get? r = some run → run.desiredState = some .cancelled →
    ∃ run', t.db.runs.get? r = some run' ∧ run'.desiredState = some .cancelled
  phase : ∀ r run, s.db.runs.get? r = some run → isTerminalRun run.phase →
    (∃ run', t.db.runs.get? r = some run' ∧ run'.phase = run.phase) ∨ a = .retry r ∧ run.phase = .failed

theorem absorbs_of_before (h : Before s.db t.db) : s.Absorbs t a := by
  refine ⟨?_, ?_⟩
  · intro r run hrun hcancelled
    obtain ⟨run', hrun', hd, -⟩ := h.runs r run hrun
    exact ⟨run', hrun', hd.trans hcancelled⟩
  · intro r run hrun hterminal
    obtain ⟨run', hrun', -, -, hp⟩ := h.runs r run hrun
    exact .inl ⟨run', hrun', hp hterminal⟩

theorem Held.absorbs (h : s.Held) (hn : State.next s a = some (t, out)) : s.Absorbs t a := by
  cases a with
  | create r =>
    simp only [State.next] at hn
    split at hn
    · rename_i hr
      obtain ⟨rfl, -⟩ := Prod.mk.inj (Option.some.inj hn)
      have hkeep : ∀ r' run, s.db.runs.get? r' = some run → (s.db.runs.set r {}).get? r' = some run := by
        intro r' run hrun
        have hne : r' ≠ r := by
          rintro rfl
          rw [hr] at hrun
          cases hrun
        rw [PyDict.get?_set_ne _ _ hne, hrun]
      exact ⟨fun r' run hrun hc => ⟨run, hkeep r' run hrun, hc⟩,
        fun r' run hrun _ => .inl ⟨run, hkeep r' run hrun, rfl⟩⟩
    · cases hn
  | cancel r =>
    simp only [State.next, call] at hn
    split at hn
    · cases hn
    · rename_i run hrun
      obtain ⟨rfl, -⟩ := Prod.mk.inj (Option.some.inj hn)
      refine ⟨?_, ?_⟩
      · intro r' old hold hc
        change ∃ run', (s.db.runs.set r _).get? r' = some run' ∧ _
        rw [PyDict.get?_set]
        split_ifs with he hterminal
        · rw [he, hrun] at hold
          exact ⟨run, rfl, (Option.some.inj hold) ▸ hc⟩
        · exact ⟨_, rfl, rfl⟩
        · exact ⟨old, hold, hc⟩
      · intro r' old hold _
        left
        change ∃ run', (s.db.runs.set r _).get? r' = some run' ∧ _
        rw [PyDict.get?_set]
        split_ifs with he hterminal
        · rw [he, hrun] at hold
          exact ⟨run, rfl, by rw [Option.some.inj hold]⟩
        · rw [he, hrun] at hold
          exact ⟨_, rfl, by rw [Option.some.inj hold]⟩
        · exact ⟨old, hold, rfl⟩
  | retry r =>
    simp only [State.next, call] at hn
    split at hn
    · cases hn
    · rename_i run hrun
      obtain ⟨rfl, -⟩ := Prod.mk.inj (Option.some.inj hn)
      unfold newAttempt
      rw [run_ite]
      split_ifs with hrefused
      · exact absorbs_of_before (.refl _)
      · refine ⟨?_, ?_⟩
        · intro r' old hold hc
          change ∃ run', (s.db.runs.set r _).get? r' = some run' ∧ _
          rw [PyDict.get?_set]
          split_ifs with he
          · rw [he, hrun] at hold
            exact ⟨_, rfl, (Option.some.inj hold) ▸ hc⟩
          · exact ⟨old, hold, hc⟩
        · intro r' old hold hterminal
          by_cases he : r' = r
          · rw [he, hrun] at hold
            obtain rfl := Option.some.inj hold
            refine .inr ⟨by rw [he], ?_⟩
            by_contra hne
            exact hrefused ⟨hterminal, hne⟩
          · refine .inl ⟨old, ?_, rfl⟩
            change (s.db.runs.set r _).get? r' = some old
            rw [PyDict.get?_set_ne _ _ he, hold]
  | pass batchSize fate listed committed =>
    simp only [State.next] at hn
    obtain ⟨rfl, -⟩ := Prod.mk.inj (Option.some.inj hn)
    exact absorbs_of_before (Sound.runOnce h batchSize fate listed committed).2
  | report name phase =>
    simp only [State.next] at hn
    split at hn
    · cases hn
    · obtain ⟨rfl, -⟩ := Prod.mk.inj (Option.some.inj hn)
      exact absorbs_of_before (.refl _)

def Asked (s : State) (r : ℕ) : Prop :=
  (∃ run, s.db.runs.get? r = some run ∧ run.desiredState = some .cancelled) ∧
    ∀ row ∈ s.db.outbox, row.run = r → row.processed = true

theorem Held.reached (h : s.Held) {r : ℕ} (hasked : s.Asked r) : Reached s r := by
  obtain ⟨⟨run, hrun, hcancelled⟩, hall⟩ := hasked
  rcases h.cancelled r run hrun hcancelled with ⟨row, hrow, hr, -, hopen⟩ | hreached
  · rw [hall row hrow hr] at hopen
    cases hopen
  · exact hreached

theorem cancellation (h : Reachable (system.restrict fun s l => settledRetry s l.1) s) :
    (∀ r, s.Asked r → Reached s r) ∧
      (∀ a t out, next s a = some (t, out) → s.Absorbs t a) ∧
      ∀ name t, s.tasks.get? name = some t → ((syncStatus name t).run s).1 = .ok () := by
  have hs : s.Held := h.invariant (fun _ h => .start h) fun _ _ _ h hstep => h.next hstep.2 hstep.1
  refine ⟨fun r hr => hs.reached hr, fun a t out hn => hs.absorbs hn, ?_⟩
  intro name t ht
  obtain ⟨u, hrun, -⟩ := (⟨.refl _, hs, hs⟩ : Pass s.db s).syncStatus ht
  rw [hrun]

def answered : ℕ → Fate := fun _ => .answered

theorem cancellation_retried :
    let s := (trace (guarded settledRetry next) {}
      [.create 0, .pass 10 answered true true, .pass 10 answered true true, .report (0, 1) .failed,
        .pass 10 answered true true, .retry 0, .pass 10 answered true true, .cancel 0,
        .pass 10 (fun _ => .lost) true true, .pass 10 answered true true]).1
    (s.tasks.get? (0, 2)).map (·.desiredState) = some .cancelled ∧ (∀ r, s.Asked r → Reached s r) ∧
      (∀ a t out, next s a = some (t, out) → s.Absorbs t a) ∧
      ∀ name t, s.tasks.get? name = some t → ((syncStatus name t).run s).1 = .ok () :=
  ⟨by decide +kernel, cancellation ⟨{}, _, ⟨rfl, rfl⟩, run_guarded Start next settledRetry _ _⟩⟩

def abandoned : State :=
  (trace next {} [.create 0, .pass 10 answered true true, .pass 10 answered true true, .report (0, 1) .running,
    .pass 10 answered true true, .retry 0, .pass 10 answered true true, .cancel 0, .pass 10 answered true true]).1

theorem cancel_misses_attempt : Reachable system abandoned ∧ abandoned.Asked 0 ∧ ¬Reached abandoned 0 := by
  refine ⟨(Reachable.start (T := system) ⟨rfl, rfl⟩).trace _, ⟨⟨⟨.running, some .cancelled, some 1, 2⟩, ?_⟩, ?_⟩, ?_⟩
  · decide +kernel
  · decide +kernel
  · intro hreached
    rcases hreached 1 ⟨0, .running, some .running, false⟩ (by decide +kernel) with hr | hd
    · cases hr
    · cases hd

end State

end ClawBox.Managed
