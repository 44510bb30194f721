import ClawBox.HostKb.Recovery

namespace ClawBox.HostKb

open JsonText Transition

variable {kb : Kb}

section Steps

theorem Durable.step_cases {b : Binding} {d d' : Durable kb} {l : Action × Reply} (h : Durable.step b d l d') :
    (d'.book = d.book ∧ (d'.cache = none ∨ d'.cache = d.cache ∨ d.cache = none ∧ d'.cache = some .new)) ∨
    (∃ cache payload receipt s response, d.cache = some cache ∧ l.1 = .predict payload receipt ∧
      predict b ⟨d.book, cache⟩ payload receipt = .ok (s, response) ∧ d' = ⟨s.book, some s.cache, d.named⟩) ∨
    ∃ cache row next a, d.cache = some cache ∧ d'.book = next.book ∧ (d'.cache = none ∨ d'.cache = some next.cache) ∧
      ((∃ r, claim ⟨d.book, cache⟩ r = .ok (.commit row next a)) ∨
        (∃ p, observe b ⟨d.book, cache⟩ p = .ok (.commit row next a)) ∨
        ∃ executionId reason, markDegraded ⟨d.book, cache⟩ executionId reason = .commit row next a) := by
  obtain ⟨action, reply⟩ := l
  have hsettle : ∀ {t : Except Refusal (Transaction kb)}, d.settle t reply d' →
      (d'.book = d.book ∧ (d'.cache = none ∨ d'.cache = d.cache)) ∨
      ∃ row next a, t = .ok (.commit row next a) ∧ d'.book = next.book ∧
      (d'.cache = none ∨ d'.cache = some next.cache) := by
    intro t ht
    match t, ht with
    | .error e, ht => exact .inl ⟨by rw [ht.2], .inr (by rw [ht.2])⟩
    | .ok (.answer a), ht => exact .inl ⟨by rw [ht.2], .inr (by rw [ht.2])⟩
    | .ok (.commit row next a), ht =>
      rcases ht with ⟨-, rfl⟩ | ⟨-, rfl⟩ | ⟨-, rfl | rfl⟩
      · exact .inr ⟨row, next, a, rfl, rfl, .inr rfl⟩
      · exact .inl ⟨rfl, .inr rfl⟩
      · exact .inl ⟨rfl, .inl rfl⟩
      · exact .inr ⟨row, next, a, rfl, rfl, .inl rfl⟩
  have hleft : (d'.book = d.book ∧ (d'.cache = none ∨ d'.cache = d.cache)) →
      d'.book = d.book ∧ (d'.cache = none ∨ d'.cache = d.cache ∨ d.cache = none ∧ d'.cache = some .new) := by
    rintro ⟨hb, hc | hc⟩
    · exact ⟨hb, .inl hc⟩
    · exact ⟨hb, .inr (.inl hc)⟩
  cases action with
  | reserve plan truncates =>
    left
    have hopened : d.cache = none → d.opened truncates reply d' →
        d'.book = d.book ∧ (d'.cache = none ∨ d'.cache = d.cache ∨ d.cache = none ∧ d'.cache = some .new) := by
      rintro hcache (⟨-, rfl⟩ | ⟨-, -, rfl⟩)
      · exact ⟨rfl, .inr (.inr ⟨hcache, rfl⟩)⟩
      · exact ⟨rfl, .inl rfl⟩
    change d.reserve b plan truncates reply d' at h
    unfold Durable.reserve at h
    split at h
    · exact ⟨by rw [h.2], .inr (.inl (by rw [h.2]))⟩
    · exact hopened ‹_› h
    · exact ⟨by rw [h.2], .inr (.inl (by rw [h.2]))⟩
    · exact hopened ‹_› h
    · exact ⟨by rw [h.2], .inr (.inl (by rw [h.2]))⟩
    · exact ⟨by rw [h.2], .inl (by rw [h.2])⟩
    · exact ⟨by rw [h.2], .inl (by rw [h.2])⟩
  | predict payload receipt =>
    obtain ⟨cache, hcache, h⟩ := h
    cases hp : predict b ⟨d.book, cache⟩ payload receipt with
    | error e =>
      rw [hp] at h
      exact .inl ⟨by rw [h.2], .inr (.inl (by rw [h.2]))⟩
    | ok out =>
      rw [hp] at h
      exact .inr (.inl ⟨cache, payload, receipt, out.1, out.2, hcache, rfl, hp, h.2⟩)
  | claim r plan =>
    obtain ⟨cache, hcache, h⟩ := h
    rcases hsettle h with hsame | ⟨row, next, a, ht, hbook, hcache'⟩
    · exact .inl (hleft hsame)
    · exact .inr (.inr ⟨cache, row, next, a, hcache, hbook, hcache', .inl ⟨r, ht⟩⟩)
  | observe payload plan =>
    obtain ⟨cache, hcache, h⟩ := h
    rcases hsettle h with hsame | ⟨row, next, a, ht, hbook, hcache'⟩
    · exact .inl (hleft hsame)
    · exact .inr (.inr ⟨cache, row, next, a, hcache, hbook, hcache', .inr (.inl ⟨payload, ht⟩)⟩)
  | markDegraded executionId reason plan =>
    obtain ⟨cache, hcache, h⟩ := h
    rcases hsettle h with hsame | ⟨row, next, a, ht, hbook, hcache'⟩
    · exact .inl (hleft hsame)
    · exact .inr
        (.inr ⟨cache, row, next, a, hcache, hbook, hcache', .inr (.inr ⟨executionId, reason, Except.ok.inj ht⟩)⟩)
  | crash => exact .inl ⟨by rw [h.2], .inl (by rw [h.2])⟩

structure Book.Grows (b b' : Book kb) : Prop where
  claims : ∀ e row, b.claims.get? e = some row → b'.claims.get? e = some row
  committed : ∀ e v, b.committed.get? e = some v → b'.committed.get? e = some v

theorem Book.Grows.refl (b : Book kb) : b.Grows b := ⟨fun _ _ h => h, fun _ _ h => h⟩

theorem get?_set_new {ν : Type} {d : PyDict Text ν} {k x : Text} {v w : ν} (hk : d.get? k = none)
    (hx : d.get? x = some v) :
    (d.set k w).get? x = some v := by
  rw [PyDict.get?_set_ne, hx]
  rintro rfl
  cases hk.symm.trans hx

theorem claim_grows {s next : Scope kb} {r : ClaimRequest} {row : Value} {a : Answer}
    (h : claim s r = .ok (.commit row next a)) : s.book.Grows next.book := by
  rcases claim_cases h with ⟨_, _, -, -, -, -, ht⟩ | ⟨item, hnew, -, -, -, -, ht⟩
  · cases ht
  · cases ht
    exact ⟨fun _ _ he => get?_set_new hnew he, fun _ _ he => he⟩

theorem observe_claims {b : Binding} {s next : Scope kb} {p row : Value} {a : Answer}
    (h : observe b s p = .ok (.commit row next a)) :
    next.book.claims = s.book.claims ∧ next.book.claimedCalls = s.book.claimedCalls ∧ next.cache = s.cache ∧
      s.book.Grows next.book := by
  obtain ⟨l, -, ⟨_, -, -, ht⟩ | ⟨hnew, _, rfl, ht⟩⟩ := observe_cases h
  · cases ht
  · cases ht
    exact ⟨rfl, rfl, rfl, fun _ _ he => he, fun _ _ he => get?_set_new hnew he⟩

theorem Durable.grows {b : Binding} {d d' : Durable kb} {l : Action × Reply} (h : Durable.step b d l d') :
    d.book.Grows d'.book := by
  rcases Durable.step_cases h with ⟨hbook, -⟩ | ⟨cache, p, receipt, s, response, -, -, hp, rfl⟩ |
    ⟨cache, row, next, a, -, hbook, -, ⟨r, ht⟩ | ⟨p, ht⟩ | ⟨executionId, reason, ht⟩⟩
  · rw [hbook]
    exact .refl _
  · rw [predict_book hp]
    exact .refl _
  · rw [hbook]
    exact claim_grows ht
  · rw [hbook]
    exact (observe_claims ht).2.2.2
  · rw [hbook, ← (Transaction.commit.inj ht).2.1]
    exact ⟨fun _ _ he => he, fun _ _ he => he⟩

end Steps

section Owners

def Durable.fresh (d : Durable kb) (l : Action × Reply) : Prop :=
  match l.1 with
  | .predict _ receipt => ∀ e row, d.book.claims.get? e = some row →
    row.get? "receipt_hash" ≠ some (.str (kb.sha256 receipt))
  | _ => True

structure Durable.Owned (d : Durable kb) : Prop where
  keys : ∀ e row, d.book.claims.get? e = some row → row.get? "receipt_hash" ≠ none ∧
    ∃ key, row.get? "call_key" = some (.str key) ∧ d.book.claimedCalls.get? key = some e
  items : ∀ cache, d.cache = some cache → ∀ key item, cache.predictions.get? key = some item → item.callKey = key ∧
    (item.executionId = none → d.book.claimedCalls.get? key = none) ∧
    ∀ e, item.executionId = some e → d.book.claims.get? e ≠ none
  receipts : ∀ cache, d.cache = some cache → ∀ hash key, cache.receipts.get? hash = some key → ∀ e row,
    d.book.claims.get? e = some row → row.get? "receipt_hash" = some (.str hash) → row.get? "call_key" = some (.str key)
  once : ∀ e e' row row' hash, d.book.claims.get? e = some row → d.book.claims.get? e' = some row' →
    row.get? "receipt_hash" = some hash → row'.get? "receipt_hash" = some hash → e = e'

namespace Durable.Owned

variable {d : Durable kb}

theorem start : (Durable.start : Durable kb).Owned where
  keys e row h := by cases h
  items cache h := by cases h
  receipts cache h := by cases h
  once e e' row row' hash h := by cases h

theorem forget (h : d.Owned) {cache : Option Cache} {named : Option Bool}
    (hc : cache = none ∨ cache = d.cache ∨ cache = some .new) : Durable.Owned ⟨d.book, cache, named⟩ := by
  refine ⟨h.keys, ?_, ?_, h.once⟩
  · intro c hcache
    rcases hc with rfl | rfl | rfl
    · cases hcache
    · exact h.items c hcache
    · cases hcache
      intro key item hitem
      cases hitem
  · intro c hcache
    rcases hc with rfl | rfl | rfl
    · cases hcache
    · exact h.receipts c hcache
    · cases hcache
      intro hash key hkey
      cases hkey

theorem predict {b : Binding} {cache : Cache} {payload response : Value} {receipt : Text} {s : Scope kb}
    {named : Option Bool} (h : d.Owned) (hcache : d.cache = some cache)
    (hfresh : ∀ e row, d.book.claims.get? e = some row → row.get? "receipt_hash" ≠ some (.str (kb.sha256 receipt)))
    (hp : HostKb.predict b ⟨d.book, cache⟩ payload receipt = .ok (s, response)) :
    Durable.Owned ⟨s.book, some s.cache, named⟩ := by
  rcases predict_cases hp with ⟨_, _, -, rfl, -⟩ | ⟨item, -, hunclaimed, hnone, -, rfl⟩
  · exact ⟨h.keys, hcache ▸ h.items, hcache ▸ h.receipts, h.once⟩
  · refine ⟨h.keys, ?_, ?_, h.once⟩
    · intro c hc key item' hitem
      cases hc
      rw [PyDict.get?_set] at hitem
      split_ifs at hitem with hkey
      · cases hitem
        refine ⟨hkey.symm, fun _ => hkey ▸ hunclaimed, fun e he => ?_⟩
        cases hnone.symm.trans he
      · exact h.items cache hcache key item' hitem
    · intro c hc hash key hkey e row hrow hhash
      cases hc
      rw [PyDict.get?_set] at hkey
      split_ifs at hkey with hsame
      · subst hsame
        exact absurd hhash (hfresh e row hrow)
      · exact h.receipts cache hcache hash key hkey e row hrow hhash

theorem claim {cache : Cache} {next : Scope kb} {r : ClaimRequest} {row : Value} {a : Answer} {named : Option Bool}
    (h : d.Owned) (hcache : d.cache = some cache) (ht : HostKb.claim ⟨d.book, cache⟩ r = .ok (.commit row next a)) :
    Durable.Owned ⟨next.book, some next.cache, named⟩ := by
  rcases claim_cases ht with ⟨_, _, -, -, -, -, ht⟩ | ⟨item, hnew, hitem, -, -, hexecution, ht⟩
  · cases ht
  cases ht
  obtain ⟨key, hreceipt, hprediction⟩ := Option.bind_eq_some_iff.1 hitem
  obtain ⟨rfl, hunclaimed, hclaimed⟩ := h.items cache hcache key item hprediction
  have hunclaimed : d.book.claimedCalls.get? item.callKey = none := by
    refine hunclaimed (hexecution.resolve_right fun he => ?_)
    exact hclaimed _ he hnew
  set row := item.claimRow r.executionId (kb.sha256 r.predictionReceipt) with hrow
  have hcall : row.get? "call_key" = some (.str item.callKey) := by
    rw [hrow, get?_claimRow]
    simp
  have hhash : row.get? "receipt_hash" = some (.str (kb.sha256 r.predictionReceipt)) := by
    rw [hrow, get?_claimRow]
    simp
  -- An older claim of this receipt would be one of this call, which is not claimed.
  have hother : ∀ e row', d.book.claims.get? e = some row' →
      row'.get? "receipt_hash" ≠ some (.str (kb.sha256 r.predictionReceipt)) := by
    intro e row' he hsame
    obtain ⟨-, key', hkey', howner⟩ := h.keys e row' he
    have hcall' := h.receipts cache hcache _ _ hreceipt e row' he hsame
    rw [hkey', Option.some.injEq, Value.str_inj] at hcall'
    rw [hcall', hunclaimed] at howner
    cases howner
  have hget : ∀ e row', (d.book.claims.set r.executionId row).get? e = some row' →
      e = r.executionId ∧ row' = row ∨ e ≠ r.executionId ∧ d.book.claims.get? e = some row' := by
    intro e row' he
    rw [PyDict.get?_set] at he
    split_ifs at he with hsame
    · exact .inl ⟨hsame, (Option.some.inj he).symm⟩
    · exact .inr ⟨hsame, he⟩
  refine ⟨?_, ?_, ?_, ?_⟩
  · intro e row' he
    rcases hget e row' he with ⟨rfl, rfl⟩ | ⟨-, he⟩
    · exact ⟨by rw [hhash]; exact Option.some_ne_none _, item.callKey, hcall, PyDict.get?_set_self _ _ _⟩
    · obtain ⟨hreceipt', key', hkey', howner⟩ := h.keys e row' he
      exact ⟨hreceipt', key', hkey', get?_set_new hunclaimed howner⟩
  · intro c hc key item' hitem'
    cases hc
    rw [Cache.claimed, PyDict.get?_set] at hitem'
    split_ifs at hitem' with hkey
    · cases hitem'
      refine ⟨hkey.symm, fun hn => absurd hn (Option.some_ne_none _), fun e he => ?_⟩
      obtain rfl := Option.some.inj he
      rw [Book.claimed, PyDict.get?_set_self]
      exact Option.some_ne_none _
    · obtain ⟨hk, hfree, hused⟩ := h.items cache hcache key item' hitem'
      refine ⟨hk, fun hn => ?_, fun e he => ?_⟩
      · rw [Book.claimed, PyDict.get?_set_ne _ _ hkey]
        exact hfree hn
      · obtain ⟨row', hrow'⟩ := Option.ne_none_iff_exists'.1 (hused e he)
        rw [Book.claimed, get?_set_new hnew hrow']
        exact Option.some_ne_none _
  · intro c hc hash key hkey e row' he hsame
    cases hc
    rcases hget e row' he with ⟨rfl, rfl⟩ | ⟨-, he⟩
    · rw [hhash, Option.some.injEq, Value.str_inj] at hsame
      subst hsame
      rw [hcall, Option.some.inj (hreceipt.symm.trans hkey)]
    · exact h.receipts cache hcache hash key hkey e row' he hsame
  · intro e e' row₁ row₂ hash he he' h1 h2
    rcases hget e row₁ he with ⟨rfl, rfl⟩ | ⟨-, he⟩
    · rcases hget e' row₂ he' with ⟨rfl, -⟩ | ⟨-, he'⟩
      · rfl
      · exact absurd (h2.trans (h1.symm.trans hhash)) (hother e' row₂ he')
    · rcases hget e' row₂ he' with ⟨rfl, rfl⟩ | ⟨-, he'⟩
      · exact absurd (h1.trans (h2.symm.trans hhash)) (hother e row₁ he)
      · exact h.once e e' row₁ row₂ hash he he' h1 h2

theorem step {b : Binding} {d' : Durable kb} {l : Action × Reply} (h : d.Owned) (hs : Durable.step b d l d')
    (hf : d.fresh l) :
    d'.Owned := by
  rcases Durable.step_cases hs with ⟨hbook, hcache⟩ | ⟨cache, p, receipt, s, response, hcache, hl, hp, rfl⟩ |
    ⟨cache, row, next, a, hcache, hbook, hcache', ht⟩
  · obtain ⟨book, cache, named⟩ := d'
    obtain rfl : book = d.book := hbook
    refine h.forget ?_
    rcases hcache with hc | hc | ⟨-, hc⟩
    · exact .inl hc
    · exact .inr (.inl hc)
    · exact .inr (.inr hc)
  · rw [Durable.fresh, hl] at hf
    exact h.predict hcache hf hp
  · have hnext : Durable.Owned ⟨next.book, some next.cache, d.named⟩ := by
      rcases ht with ⟨r, ht⟩ | ⟨p, ht⟩ | ⟨executionId, reason, ht⟩
      · exact h.claim hcache ht
      · obtain ⟨hclaims, hcalls, hkeep, -⟩ := observe_claims ht
        rw [hkeep]
        refine ⟨?_, ?_, ?_, ?_⟩
        · rw [hclaims, hcalls]
          exact h.keys
        · rw [hclaims, hcalls, ← hcache]
          exact h.items
        · rw [hclaims, ← hcache]
          exact h.receipts
        · rw [hclaims]
          exact h.once
      · obtain ⟨-, rfl, -⟩ := Transaction.commit.inj ht
        rw [← hcache]
        exact ⟨h.keys, h.items, h.receipts, h.once⟩
    obtain ⟨book, cache', named⟩ := d'
    obtain rfl : book = next.book := hbook
    refine hnext.forget ?_
    rcases hcache' with hc | hc
    · exact .inl hc
    · exact .inr (.inl hc)

end Durable.Owned

end Owners

section Answers

def Settled (b : Binding) (book : Book kb) : Action × Reply → Prop
  | (.claim r _, .answered (.selection v)) => ∃ row, book.claims.get? r.executionId = some row ∧
    row.get? "receipt_hash" = some (.str (kb.sha256 r.predictionReceipt)) ∧
    row.get? "command_sha256" = some r.commandSha256 ∧ row.get? "selected" = some v
  | (.observe p _, .answered (.observation _ generation sha)) => ∃ l, lesson b book p = .ok l ∧
    sha = digest kb (normalized p l.clauses) ∧ book.committed.get? l.executionId = some (.str sha, generation)
  | _ => True

theorem lesson_congr {b : Binding} {book book' : Book kb} {p : Value} {l : Lesson kb} (h : lesson b book p = .ok l)
    (hclaims : book'.claims.get? l.executionId = book.claims.get? l.executionId) : lesson b book' p = .ok l := by
  have hid := textField_eq_ok.2 (lesson_spec h).1
  have hbind : ∀ {α β : Type} {x : Except Refusal α} {a : α} {f : α → Except Refusal β}, x = .ok a →
      (x >>= f) = f a := by
    rintro _ _ _ _ _ rfl
    rfl
  unfold lesson at h ⊢
  rw [bind_eq_ok] at h
  obtain ⟨_, hvalid, h⟩ := h
  rw [bind_eq_ok] at h
  obtain ⟨_, hbinding, h⟩ := h
  rw [hbind hid] at h
  rw [hbind hvalid, hbind hbinding, hbind hid, ← h]
  simp only [hclaims]

theorem Settled.grows {b : Binding} {book book' : Book kb} {l : Action × Reply} (h : Settled b book l)
    (hg : book.Grows book') : Settled b book' l := by
  unfold Settled at h ⊢
  split
  · obtain ⟨row, hrow, hfields⟩ := h
    exact ⟨row, hg.claims _ _ hrow, hfields⟩
  · obtain ⟨lsn, hl, hsha, hcommitted⟩ := h
    obtain ⟨-, ⟨claim, hclaim, -⟩, -⟩ := lesson_spec hl
    exact ⟨lsn, lesson_congr hl ((hg.claims _ _ hclaim).trans hclaim.symm), hsha, hg.committed _ _ hcommitted⟩
  · trivial

theorem settled_step {b : Binding} {d d' : Durable kb} {l : Action × Reply} (h : Durable.step b d l d') :
    Settled b d'.book l := by
  unfold Settled
  split
  · rename_i r plan v
    obtain ⟨cache, -, h⟩ := h
    cases ht : claim (⟨d.book, cache⟩ : Scope kb) r with
    | error e =>
      rw [ht] at h
      cases h.1
    | ok t =>
      rw [ht] at h
      rcases claim_cases ht with ⟨row, selected, hrow, hreceipt, hcommand, hselected, rfl⟩ |
        ⟨item, -, -, hcommand, -, -, rfl⟩
      · obtain ⟨hv, rfl⟩ := h
        cases hv
        exact ⟨row, hrow, hreceipt, hcommand, hselected⟩
      · rcases h with ⟨hv, rfl⟩ | ⟨hv, -⟩ | ⟨hv, -⟩
        · cases hv
          refine ⟨_, PyDict.get?_set_self _ _ _, ?_, ?_, ?_⟩
          · rw [get?_claimRow]
            simp
          · rw [get?_claimRow]
            simp [hcommand]
          · rw [get?_claimRow]
            simp
        · cases hv
        · cases hv
  · rename_i p plan duplicate generation sha
    obtain ⟨cache, -, h⟩ := h
    cases ht : observe b (⟨d.book, cache⟩ : Scope kb) p with
    | error e =>
      rw [ht] at h
      cases h.1
    | ok t =>
      rw [ht] at h
      obtain ⟨l, hl, ⟨previous, hprevious, hdigest, rfl⟩ | ⟨hnew, next, hnext, rfl⟩⟩ := observe_cases ht
      · obtain ⟨hv, rfl⟩ := h
        cases hv
        exact ⟨l, hl, rfl, by rw [← hdigest]; exact hprevious⟩
      · rcases h with ⟨hv, rfl⟩ | ⟨hv, -⟩ | ⟨hv, -⟩
        · cases hv
          subst hnext
          exact ⟨l, lesson_congr hl rfl, rfl, PyDict.get?_set_self _ _ _⟩
        · cases hv
        · cases hv
  · trivial

theorem claim_of_settled {b : Binding} {s : Scope kb} {r : ClaimRequest} {plan : Append} {v : Value}
    (h : Settled b s.book (.claim r plan, .answered (.selection v))) : claim s r = .ok (.answer (.selection v)) := by
  obtain ⟨row, hrow, hreceipt, hcommand, hselected⟩ := h
  unfold claim
  simp only [hrow, hreceipt, hcommand]
  rw [refuseIf, if_neg (by simp), field, hselected]
  rfl

theorem observe_of_settled {b : Binding} {s : Scope kb} {p : Value} {plan : Append} {duplicate : Bool}
    {generation : Value} {sha : Text}
    (h : Settled b s.book (.observe p plan, .answered (.observation duplicate generation sha))) :
    observe b s p = .ok (.answer (.observation true generation sha)) := by
  obtain ⟨l, hl, rfl, hcommitted⟩ := h
  unfold observe
  rw [hl]
  dsimp only [bind, Except.bind]
  rw [hcommitted]
  simp only [refuseIf, ne_eq, not_true_eq_false, if_false]
  rfl

theorem settled_run {b : Binding} {d d' : Durable kb} {ls : List (Action × Reply)}
    (hr : Run (Durable.system kb b) d ls d') :
    ∀ l ∈ ls, Settled b d'.book l := by
  induction hr with
  | nil => exact fun l hl => by cases hl
  | snoc hr hs ih =>
    intro l hl
    rcases List.mem_append.1 hl with hl | hl
    · exact (ih l hl).grows (Durable.grows hs)
    · obtain rfl := List.mem_singleton.1 hl
      exact settled_step hs

theorem owned_run (hkb : kb.Faithful) {b : Binding} {h : Host kb} {ls : List (Action × Reply)}
    (hr : Run ((Host.system kb b).restrict fun h l => h.orderly b l ∧ (h.durable b).fresh l) Host.empty ls h) :
    (h.durable b).Owned := by
  have hstart : ((Host.empty : Host kb).durable b).Owned := by
    rw [sound_empty.durable]
    exact .start
  have hinv : (∃ book, h.Sound book) ∧ (h.durable b).Owned := by
    refine hr.invariant (I := fun h => (∃ book, h.Sound book) ∧ (h.durable b).Owned) ?_ ⟨⟨_, sound_empty⟩, hstart⟩
    rintro h l h' ⟨hs, ho⟩ ⟨hstep, horderly, hfresh⟩
    exact ⟨step_sound hkb hs ⟨hstep, horderly⟩, ho.step (step_durable hkb hs ⟨hstep, horderly⟩) hfresh⟩
  exact hinv.2

/-- As long as no receipt is drawn again that is claimed: a claim or an observation that was answered once gets the
same answer in every later state of the run, after crashes too, and nothing is written for it again; and no call and
no receipt is claimed for two executions. -/
theorem answers_stable (hkb : kb.Faithful) {b : Binding} {h : Host kb} {ls : List (Action × Reply)} {s : Scope kb}
    (hr : Run ((Host.system kb b).restrict fun h l => h.orderly b l ∧ (h.durable b).fresh l) Host.empty ls h)
    (hs : h.scope = some s) :
    (∀ r plan v, (.claim r plan, .answered (.selection v)) ∈ ls → claim s r = .ok (.answer (.selection v))) ∧
      (∀ p plan duplicate generation sha, (.observe p plan, .answered (.observation duplicate generation sha)) ∈ ls →
        observe b s p = .ok (.answer (.observation true generation sha))) ∧
      ∀ e e' row row', s.book.claims.get? e = some row → s.book.claims.get? e' = some row' →
        row.get? "call_key" = row'.get? "call_key" ∨ row.get? "receipt_hash" = row'.get? "receipt_hash" → e = e' := by
  have hr' : Run ((Host.system kb b).restrict (Host.orderly b)) Host.empty ls h := by
    refine hr.mono ?_
    intro h l h' hl
    exact ⟨hl.1, hl.2.1⟩
  obtain ⟨hdurable, -, hbook⟩ := recovery_exact hkb hr'
  have hsettled := settled_run hdurable
  have howned := owned_run hkb hr
  rw [← hbook s hs] at hsettled
  refine ⟨fun r plan v hl => claim_of_settled (hsettled _ hl), fun p plan duplicate generation sha hl =>
    observe_of_settled (hsettled _ hl), ?_⟩
  intro e e' row row' he he' hsame
  rw [hbook s hs] at he he'
  obtain ⟨hreceipt, key, hkey, howner⟩ := howned.keys e row he
  obtain ⟨-, key', hkey', howner'⟩ := howned.keys e' row' he'
  rcases hsame with hcall | hhash
  · rw [hkey, hkey', Option.some.injEq, Value.str_inj] at hcall
    subst hcall
    exact Option.some.inj (howner.symm.trans howner')
  · obtain ⟨hash, hrow⟩ := Option.ne_none_iff_exists'.1 hreceipt
    exact howned.once e e' row row' hash he he' hrow (hhash ▸ hrow)

theorem Durable.fresh_of_careful {b : Binding} {h : Host kb} {l : Action × Reply} (hc : h.careful b l.1 = true) :
    (h.durable b).fresh l := by
  obtain ⟨action, reply⟩ := l
  cases action with
  | predict payload receipt =>
    intro e row hrow
    have hrows := List.all_eq_true.1 hc (e, row) (PyDict.mem_of_get? hrow)
    exact of_decide_eq_true hrows
  | _ => trivial

theorem answers_stable_listing : listingRun.1.scope.isSome = true ∧ ∀ s, listingRun.1.scope = some s →
    (∀ r plan v, (.claim r plan, .answered (.selection v)) ∈ listingRun.2 → claim s r = .ok (.answer (.selection v))) ∧
      (∀ p plan duplicate generation sha, (.observe p plan, .answered (.observation duplicate generation sha)) ∈
        listingRun.2 →
        observe listingBinding s p = .ok (.answer (.observation true generation sha))) ∧
      ∀ e e' row row', s.book.claims.get? e = some row → s.book.claims.get? e' = some row' →
        row.get? "call_key" = row'.get? "call_key" ∨ row.get? "receipt_hash" = row'.get? "receipt_hash" → e = e' := by
  have hr : Run ((Host.system listingKb listingBinding).restrict
      fun h l => h.orderly listingBinding l ∧ (h.durable listingBinding).fresh l) Host.empty listingRun.2
        listingRun.1 := by
    refine run_listingRun.mono ?_
    intro h l h' hl
    exact ⟨hl.1, Host.orderly_of_careful hl.2, Durable.fresh_of_careful hl.2⟩
  exact ⟨listingRun_complete.2, fun s hs => answers_stable faithful_listingKb hr hs⟩

end Answers

end ClawBox.HostKb
