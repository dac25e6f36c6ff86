import Aixos.Posix.NamedMoves
import Aixos.System.Membership

/-!
# Failed closes and unlinks

A close that cannot delete the native object takes its reference again, so that it can be tried again. An unlink that
cannot delete it does not link the name again: the entry has neither a name nor a reference, and no call finds it any more.

* `Returns` — a call and what it returns, whatever other tasks do meanwhile.
* `Retriable` — the property: a failed close or unlink leaves its entry as it was, and every entry can be reached.
* `UnlinkDeletes` — the condition: no unlink goes on to delete an object that cannot be deleted.
* `Named.retriable_of_path` — it is enough, in every run.
-/

namespace Aixos

open Transition

namespace Named

variable [cfg : Config]

/-- The entry that a close or an unlink is about. -/
def about (s : Named) : NamedCall → Option (NamedKind × ℕ × NamedEntry)
  | .semClose sem => (s.findPointer sem).map fun x => (.sem, x)
  | .semUnlink (some name) => (s.findName .sem name).map fun x => (.sem, x)
  | .mqClose descriptor => (s.findDescriptor descriptor).map fun x => (.mq, x)
  | .mqUnlink (some name) => (s.findName .mq name).map fun x => (.mq, x)
  | _ => none

/-- A call of a task that begins in `s` returns in `s'`; the task makes no other call meanwhile, and all steps after the
first meet `C`. -/
def Returns (C : Named → NamedAct → Prop) (s : Named) (t : TaskId) (c : NamedCall) (s' : Named) (r : NamedResult) : Prop :=
  ∃ s₁, s.step (.call t c) = some s₁ ∧ s'.result t = some r ∧
    (s' = s₁ ∨ ∃ bs s₂, Path (Next step) C s₁ bs s₂ ∧ (∀ a ∈ bs, ∀ c', a ≠ .call t c') ∧ C s₂ (.goOn t) ∧
      s₂.step (.goOn t) = some s')

/-- **A failed close or unlink can be retried.** -/
structure Retriable (C : Named → NamedAct → Prop) (s : Named) : Prop where
  /-- Every entry has a name that is linked to it, or a reference, or is in a call. -/
  reachable : ∀ kind i e, s.entry kind i = some e → e.unlinked = false ∨ e.references ≠ 0 ∨ ¬ s.Free kind i
  /-- A call that fails leaves the entry that it is about as it was. -/
  restored : ∀ t c s' errno, Returns C s t c s' (.failed errno) → ∀ kind i e, s.about c = some (kind, i, e) →
    s'.entry kind i = some e
  /-- A call that is about an entry, with a reference if it is a close, succeeds if the object can be deleted. -/
  retried : ∀ t c kind i e, s.pending t = none → s.about c = some (kind, i, e) →
    (∀ x, c = .semClose x → e.references ≠ 0) → (∀ x, c = .mqClose x → e.references ≠ 0) →
    s.kernel.Deletable kind.objKind e.native → ∃ n s', run step s (.call t c :: List.replicate n (.goOn t)) = some s' ∧ s'.pending t = none ∧ s'.result t = some .ok

/-- Where an unlink goes on to delete the native object, the object can be deleted. -/
def UnlinkDeletes (s : Named) (a : NamedAct) : Prop := ∀ t kind i h, a = .goOn t →
  s.pending t = some ⟨.unlinkDelete, kind, i, h⟩ → s.kernel.Deletable kind.objKind h

variable {s s' s₁ s₂ : Named} {a : NamedAct} {evs : List NamedEvent} {t u : TaskId} {c : NamedCall} {kind : NamedKind}
  {i : ℕ} {e : NamedEntry} {p : NamedPending}

/-! ### Reachable entries -/

/-- Every entry can be reached. -/
def Reachable (s : Named) : Prop :=
  ∀ kind i e, s.entry kind i = some e → e.unlinked = false ∨ e.references ≠ 0 ∨ ¬ s.Free kind i

omit cfg in
/-- A task changes an entry that no other call has. -/
theorem Reachable.settle (h : Reachable s) {k : Kernel} {x : Option NamedEntry} {r : NamedResult ⊕ NamedPending}
    (hself : ∀ q, s.pending t = some q → q.kind = kind ∧ q.index = i)
    (hx : ∀ e, x = some e → e.unlinked = false ∨ e.references ≠ 0 ∨ ∃ q, r = .inr q ∧ q.kind = kind ∧ q.index = i) :
    Reachable (Named.settle t ({ s with kernel := k }.setEntry kind i x, r)) := by
  intro kind' j e he
  rw [settle_entry, setEntry_entry] at he
  split at he
  · rename_i hk
    obtain ⟨rfl, rfl⟩ := hk
    rcases hx e he with h | h | ⟨q, rfl, hq⟩
    · exact .inl h
    · exact .inr (.inl h)
    · exact .inr (.inr fun hf => hf t q (by rw [settle_pending, if_pos rfl]; rfl) hq)
  · rename_i hk
    rcases h kind' j e he with h | h | h
    · exact .inl h
    · exact .inr (.inl h)
    · refine .inr (.inr fun hf => h fun u q hq hkj => ?_)
      by_cases hu : u = t
      · subst hu
        obtain ⟨h₁, h₂⟩ := hself q hq
        exact hk ⟨hkj.1.symm.trans h₁, hkj.2.symm.trans h₂⟩
      · exact hf u q (by rw [settle_pending, if_neg hu]; exact hq) hkj

/-- **One step**, where an unlink deletes the object. -/
theorem Reachable.move (h : Reachable s) (hu : UnlinkDeletes s a) (hm : Move s a evs s') : Reachable s' := by
  have hcall : ∀ {t : TaskId} {kind i}, s.pending t = none → ∀ q, s.pending t = some q → q.kind = kind ∧ q.index = i := by
    intro t kind i hp q hq
    rw [hp] at hq
    cases hq
  have hgo : ∀ {t : TaskId} {p : NamedPending}, s.pending t = some p → ∀ q, s.pending t = some q →
      q.kind = p.kind ∧ q.index = p.index := by
    intro t p hp q hq
    rw [hp] at hq
    cases hq
    exact ⟨rfl, rfl⟩
  have hstay : ∀ {t : TaskId} {p q : NamedPending} {k : Kernel}, s.pending t = some p → q.kind = p.kind →
      q.index = p.index → Reachable (Named.settle t ({ s with kernel := k }, .inr q)) := by
    intro t p q k hp hk hj
    have h₁ := h.settle (k := k) (x := s.entry p.kind p.index) (r := .inr q) (hgo hp)
      fun e _ => .inr (.inr ⟨q, rfl, hk, hj⟩)
    rwa [setEntry_self (s := { s with kernel := k }) rfl] at h₁
  cases hm with
  | @refused t c errno hp =>
    intro kind i e he
    rw [settle_entry] at he
    rcases h kind i e he with h | h | h
    · exact .inl h
    · exact .inr (.inl h)
    · refine .inr (.inr fun hf => h fun u q hq => hf u q ?_)
      rw [settle_pending, if_neg]
      · exact hq
      · rintro rfl
        rw [hp] at hq
        cases hq
  | reopened hp he hl hr => exact h.settle (k := s.kernel) (hcall hp) (by rintro _ ⟨⟩; exact .inl hl)
  | created hp hi he hr hl hf hc => exact h.settle (hcall hp) (by rintro _ ⟨⟩; exact .inl hl)
  | @closed t c kind i e hp he hr hd =>
    refine h.settle (k := s.kernel) (hcall hp) ?_
    rintro _ ⟨⟩
    by_cases h₀ : e.references - 1 = 0
    · exact .inl (Bool.eq_false_iff.mpr fun hl => hd ⟨h₀, hl⟩)
    · exact .inr (.inl h₀)
  | closing hp he hr hd hl =>
    exact h.settle (k := s.kernel) (hcall hp) (by rintro _ ⟨⟩; exact .inr (.inr ⟨_, rfl, rfl, rfl⟩))
  | unlinked hp he hl hr => exact h.settle (k := s.kernel) (hcall hp) (by rintro _ ⟨⟩; exact .inr (.inl hr))
  | unlinking hp he hl hr =>
    exact h.settle (k := s.kernel) (hcall hp) (by rintro _ ⟨⟩; exact .inr (.inr ⟨_, rfl, rfl, rfl⟩))
  | closeDeleted hp hd | unlinkDeleted hp hd => exact hstay hp rfl rfl
  | closeFailed hp => exact hstay (k := s.kernel) hp rfl rfl
  | closeUndone hp =>
    refine h.settle (k := s.kernel) (hgo hp) fun e he => ?_
    obtain ⟨e₀, -, rfl⟩ := Option.map_eq_some_iff.mp he
    exact .inr (.inl (by decide : (1 : BitVec 16) ≠ 0))
  | unlinkFailed hp hd => exact absurd (hu _ _ _ _ rfl hp) hd
  | cleared hp => exact h.settle (k := s.kernel) (hgo hp) nofun
  | other f => exact h

/-! ### Calls about an entry -/

/-- How the first critical section of a close or an unlink ends. -/
inductive Begins (s : Named) (kind : NamedKind) (i : ℕ) (e : NamedEntry) : NamedCall → Named × (NamedResult ⊕ NamedPending) → Prop where
  | refused {c : NamedCall} (errno : Posix.Errno) (x : ℕ ⊕ Handle) : e.references = 0 →
      c = x.elim .semClose .mqClose → Begins s kind i e c (s, .inl (.failed errno))
  | returns {c : NamedCall} (s' : Named) : Begins s kind i e c (s', .inl .ok)
  | closing {c : NamedCall} : e.references = 1 → e.unlinked = true →
      Begins s kind i e c (s.setEntry kind i (some { e with references := 0 }), .inr ⟨.closeDelete, kind, i, e.native⟩)
  | unlinking {c : NamedCall} : Begins s kind i e c
      (s.setEntry kind i (some { e with unlinked := true }), .inr ⟨.unlinkDelete, kind, i, e.native⟩)

omit cfg in
theorem begins_closeNamed (errno : Posix.Errno) (x : ℕ ⊕ Handle) (hc : c = x.elim .semClose .mqClose) :
    Begins s kind i e c (s.closeNamed kind (some (i, e)) errno) := by
  unfold closeNamed
  dsimp only
  split
  · rename_i hr
    exact .refused errno x hr hc
  · rename_i hr
    split
    · rename_i hd
      have h₁ : e.references = 1 := by
        have := hd.1
        bv_omega
      rw [hd.1]
      exact .closing h₁ hd.2
    · exact .returns _

theorem begins_unlinkNamed {name : CString} (hf : s.findName kind name = some (i, e)) :
    Begins s kind i e c (s.unlinkNamed kind (some name)) := by
  unfold unlinkNamed
  dsimp only
  rw [hf]
  dsimp only
  split
  · exact .unlinking
  · exact .returns _

theorem begins_of_about (h : s.about c = some (kind, i, e)) : s.entry kind i = some e ∧ Begins s kind i e c (s.call c) := by
  unfold about at h
  split at h
  · obtain ⟨⟨j, e'⟩, hf, h⟩ := Option.map_eq_some_iff.mp h
    cases h
    obtain ⟨rfl, -, he⟩ := findPointer_eq_some hf
    refine ⟨he, ?_⟩
    rw [call, semCloseNamed, hf]
    exact begins_closeNamed _ (.inl _) rfl
  · obtain ⟨⟨j, e'⟩, hf, h⟩ := Option.map_eq_some_iff.mp h
    cases h
    exact ⟨(findName_eq_some hf).2.1, begins_unlinkNamed hf⟩
  · obtain ⟨⟨j, e'⟩, hf, h⟩ := Option.map_eq_some_iff.mp h
    cases h
    refine ⟨(findDescriptor_eq_some hf).2.1, ?_⟩
    rw [call, mqCloseNamed, hf]
    exact begins_closeNamed _ (.inr _) rfl
  · obtain ⟨⟨j, e'⟩, hf, h⟩ := Option.map_eq_some_iff.mp h
    cases h
    exact ⟨(findName_eq_some hf).2.1, begins_unlinkNamed hf⟩
  · cases h

/-! ### What other tasks do meanwhile -/

omit cfg in
/-- Another task changes another entry. -/
theorem frame_settle (hu : t ≠ u) (hne : ¬ (p.kind = kind ∧ p.index = i)) (hp : s.pending t = some p) {k : Kernel}
    {x : Option NamedEntry} {r : NamedResult ⊕ NamedPending} :
    (settle u ({ s with kernel := k }.setEntry kind i x, r)).pending t = some p ∧
      (settle u ({ s with kernel := k }.setEntry kind i x, r)).entry p.kind p.index = s.entry p.kind p.index := by
  rw [settle_pending, if_neg hu, settle_entry, setEntry_entry, if_neg hne]
  exact ⟨hp, rfl⟩

omit cfg in
/-- Another task changes no entry. -/
theorem frame_stay (hu : t ≠ u) (hp : s.pending t = some p) {k : Kernel} {r : NamedResult ⊕ NamedPending} :
    (settle u ({ s with kernel := k }, r)).pending t = some p ∧
      (settle u ({ s with kernel := k }, r)).entry p.kind p.index = s.entry p.kind p.index := by
  rw [settle_pending, if_neg hu, settle_entry]
  exact ⟨hp, rfl⟩

/-- **The entry of a call that goes on** is left alone by all others. -/
theorem frame_move (ho : Orderly s) (hm : Move s a evs s') (hp : s.pending t = some p) (ha : a ≠ .goOn t) :
    s'.pending t = some p ∧ s'.entry p.kind p.index = s.entry p.kind p.index := by
  have hcall : ∀ {u}, s.pending u = none → t ≠ u := by
    rintro u hu rfl
    rw [hp] at hu
    cases hu
  have hgo : ∀ {u}, a = .goOn u → t ≠ u := by
    rintro u rfl rfl
    exact ha rfl
  have hfree : ∀ {kind i}, s.Free kind i → ¬ (p.kind = kind ∧ p.index = i) := fun hf => hf t p hp
  have hown : ∀ {u} {q : NamedPending}, t ≠ u → s.pending u = some q → ¬ (p.kind = q.kind ∧ p.index = q.index) :=
    fun hu hq h => hu (ho.own t _ p _ hp hq h.1 h.2)
  cases hm with
  | refused errno hu => exact frame_stay (k := s.kernel) (hcall hu) hp
  | reopened hu he hl hr => exact frame_settle (k := s.kernel) (hcall hu) (hfree (ho.free he (.inl hl))) hp
  | created hu hi he hr hl hf hc => exact frame_settle (hcall hu) (hfree (ho.free_of_none he)) hp
  | closed hu he hr hd => exact frame_settle (k := s.kernel) (hcall hu) (hfree (ho.free he (.inr hr))) hp
  | closing hu he hr hd hl => exact frame_settle (k := s.kernel) (hcall hu) (hfree (ho.free he (.inr hr))) hp
  | unlinked hu he hl hr => exact frame_settle (k := s.kernel) (hcall hu) (hfree (ho.free he (.inl hl))) hp
  | unlinking hu he hl hr => exact frame_settle (k := s.kernel) (hcall hu) (hfree (ho.free he (.inl hl))) hp
  | closeDeleted hq hd | unlinkDeleted hq hd => exact frame_stay (hgo rfl) hp
  | closeFailed hq => exact frame_stay (k := s.kernel) (hgo rfl) hp
  | unlinkFailed hq hd => exact frame_stay (k := s.kernel) (hgo rfl) hp
  | closeUndone hq => exact frame_settle (k := s.kernel) (hgo rfl) (hown (hgo rfl) hq) hp
  | cleared hq => exact frame_settle (k := s.kernel) (hgo rfl) (hown (hgo rfl) hq) hp
  | other f => exact ⟨hp, rfl⟩

/-! ### Calls that fail -/

/-- A call about an entry that goes on: a close has taken the last reference away, and a task in it stays with it. -/
def Holds (t : TaskId) (kind : NamedKind) (i : ℕ) (e : NamedEntry) (s : Named) : Prop := ∀ p, s.pending t = some p →
  p.kind = kind ∧ p.index = i ∧ (p.stage = .closeDelete ∨ p.stage = .closeUndo →
    e.references = 1 ∧ s.entry kind i = some { e with references := 0 })

theorem holds_call (hb : Begins s kind i e c (s.call c)) : Holds t kind i e (settle t (s.call c)) := by
  intro p hp'
  rw [show s.call c = ((s.call c).1, (s.call c).2) from rfl, settle_pending, if_pos rfl] at hp'
  generalize s.call c = x at hb hp' ⊢
  cases hb with
  | refused => cases hp'
  | returns => cases hp'
  | closing hr hl =>
    cases hp'
    exact ⟨rfl, rfl, fun _ => ⟨hr, by rw [settle_entry, setEntry_same]⟩⟩
  | unlinking =>
    cases hp'
    exact ⟨rfl, rfl, fun h => by rcases h with h | h <;> cases h⟩

omit cfg in
theorem settle_result {r : NamedResult ⊕ NamedPending} : (settle t (s, r)).result t = r.getLeft? := by
  cases r <;> simp [settle]

/-- A task that is in no call begins none. -/
theorem idle_move (hm : Move s a evs s') (hp : s.pending t = none) (ha : ∀ c, a ≠ .call t c) : s'.pending t = none := by
  have hsettle : ∀ {u : TaskId} {c x r}, a = .call u c → x.pending = s.pending →
      (settle u (x, r)).pending t = none := by
    rintro u c x r rfl hx
    rw [settle_pending, if_neg, hx, hp]
    rintro rfl
    exact ha c rfl
  have hgo : ∀ {u : TaskId} {q x r}, s.pending u = some q → x.pending = s.pending → (settle u (x, r)).pending t = none := by
    rintro u q x r hq hx
    rw [settle_pending, if_neg, hx, hp]
    rintro rfl
    rw [hp] at hq
    cases hq
  cases hm with
  | refused | reopened | created | closed | closing | unlinked | unlinking => exact hsettle rfl rfl
  | closeDeleted hq | closeFailed hq | closeUndone hq | unlinkDeleted hq | unlinkFailed hq | cleared hq => exact hgo hq rfl
  | other f => exact hp

/-- What the other tasks do, and what the task does in the call. -/
theorem holds_move (ho : Orderly s) (hm : Move s a evs s') (h : Holds t kind i e s) (ha : ∀ c, a ≠ .call t c) :
    Holds t kind i e s' := by
  intro p' hp'
  cases hp : s.pending t with
  | none =>
    rw [idle_move hm hp ha] at hp'
    cases hp'
  | some p =>
    obtain ⟨rfl, rfl, hst⟩ := h p hp
    by_cases hgo : a = .goOn t
    · subst hgo
      cases hm with
      | closeDeleted hq hd | unlinkDeleted hq hd =>
        rw [hp] at hq
        cases hq
        rw [settle_pending, if_pos rfl] at hp'
        cases hp'
        exact ⟨rfl, rfl, fun h => by rcases h with h | h <;> cases h⟩
      | closeFailed hq =>
        rw [hp] at hq
        cases hq
        rw [settle_pending, if_pos rfl] at hp'
        cases hp'
        exact ⟨rfl, rfl, fun _ => by rw [settle_entry]; exact hst (.inl rfl)⟩
      | closeUndone hq | unlinkFailed hq | cleared hq =>
        rw [settle_pending, if_pos rfl] at hp'
        cases hp'
    · obtain ⟨h₁, h₂⟩ := frame_move ho hm hp hgo
      rw [h₁] at hp'
      cases hp'
      exact ⟨rfl, rfl, fun h => by rw [h₂]; exact hst h⟩

/-- The step with which a call fails gives its entry back. -/
theorem restored_move (hu : UnlinkDeletes s (.goOn t)) (hm : Move s (.goOn t) evs s') (h : Holds t kind i e s)
    {errno : Posix.Errno} (hr : s'.result t = some (.failed errno)) : s'.entry kind i = some e := by
  cases hm with
  | closeDeleted hq | closeFailed hq | unlinkDeleted hq | cleared hq =>
    rw [settle_result] at hr
    cases hr
  | unlinkFailed hq hd => exact absurd (hu _ _ _ _ rfl hq) hd
  | closeUndone hq =>
    obtain ⟨rfl, rfl, hst⟩ := h _ hq
    obtain ⟨h₁, he⟩ := hst (.inr rfl)
    rw [settle_entry, setEntry_same, he]
    exact congrArg some (by rw [← h₁])

/-- **A call that fails leaves its entry as it was.** -/
theorem restored (ho : Orderly s) {errno : Posix.Errno} (h : Returns UnlinkDeletes s t c s' (.failed errno))
    (hc : s.about c = some (kind, i, e)) : s'.entry kind i = some e := by
  obtain ⟨s₁, hs₁, hr, hs'⟩ := h
  obtain ⟨he, hb⟩ := begins_of_about hc
  have hm := moves hs₁
  have e₁ : s₁ = settle t (s.call c) := by
    rw [step] at hs₁
    split at hs₁
    · exact (Option.some_inj.mp hs₁).symm
    · cases hs₁
  rcases hs' with rfl | ⟨bs, s₂, hp, hbs, hu, hgo⟩
  · subst e₁
    generalize s.call c = x at hb hr ⊢
    cases hb with
    | refused => rw [settle_entry, he]
    | returns => rw [settle_result] at hr; cases hr
    | closing => rw [settle_result] at hr; cases hr
    | unlinking => rw [settle_result] at hr; cases hr
  · have h₁ : Orderly s₁ ∧ Holds t kind i e s₁ := ⟨ho.move hm, by rw [e₁]; exact holds_call hb⟩
    obtain ⟨-, h₂⟩ := (hp.both hbs).invariant (I := fun s => Orderly s ∧ Holds t kind i e s)
      (fun s a s' h ha hstep => ⟨h.1.move (moves hstep), holds_move h.1 (moves hstep) h.2 ha.2⟩) h₁
    exact restored_move hu (moves hgo) h₂ hr

/-! ### Calls that succeed -/

/-- Two further critical sections: the object is deleted and the entry is cleared. -/
theorem deletes {q : NamedPending} (hp : s.pending t = some q) (hst : q.stage = .closeDelete ∨ q.stage = .unlinkDelete)
    (hd : s.kernel.Deletable q.kind.objKind q.native) :
    ∃ s', run step s [.goOn t, .goOn t] = some s' ∧ s'.pending t = none ∧ s'.result t = some .ok := by
  obtain ⟨stage, kind, i, h⟩ := q
  rcases Kernel.deleteObject_cases s.kernel kind.objKind h with ⟨-, k, hk, -⟩ | ⟨hn, -⟩
  · have h₁ : s.step (.goOn t) = some (settle t ({ s with kernel := k }, .inr ⟨.clear, kind, i, h⟩)) := by
      rw [step, hp, Option.map_some, goOn]
      dsimp only at hst
      rcases hst with rfl | rfl <;> simp [nativeDelete_eq, hk]
    have h₂ : (settle t ({ s with kernel := k }, .inr ⟨.clear, kind, i, h⟩)).pending t = some ⟨.clear, kind, i, h⟩ := by
      rw [settle_pending, if_pos rfl]
      rfl
    refine ⟨settle t ((settle t ({ s with kernel := k }, .inr ⟨.clear, kind, i, h⟩)).setEntry kind i none, .inl .ok), ?_, ?_, ?_⟩
    · rw [run, h₁, Option.bind_some, run_one, step, h₂]
      rfl
    · rw [settle_pending, if_pos rfl]
      rfl
    · rw [settle_result]
      rfl
  · exact absurd hd hn

/-- **A call about an entry succeeds** if the object can be deleted. -/
theorem retried (hp : s.pending t = none) (hc : s.about c = some (kind, i, e))
    (hr : ∀ x, c = .semClose x → e.references ≠ 0) (hr' : ∀ x, c = .mqClose x → e.references ≠ 0)
    (hd : s.kernel.Deletable kind.objKind e.native) :
    ∃ n s', run step s (.call t c :: List.replicate n (.goOn t)) = some s' ∧ s'.pending t = none ∧
      s'.result t = some .ok := by
  obtain ⟨-, hb⟩ := begins_of_about hc
  have hstep : s.step (.call t c) = some (settle t (s.call c)) := by rw [step, if_pos hp]
  generalize s.call c = x at hb hstep
  have hgo : ∀ {y : Named} {q : NamedPending}, x = (y, .inr q) → y.kernel = s.kernel → q.kind = kind → q.native = e.native →
      q.stage = .closeDelete ∨ q.stage = .unlinkDelete → ∃ n s', run step s (.call t c :: List.replicate n (.goOn t)) = some s' ∧
        s'.pending t = none ∧ s'.result t = some .ok := by
    rintro y q rfl hk hkind hn hst
    obtain ⟨s', hs', h⟩ := deletes (s := settle t (y, .inr q)) (t := t) (q := q) (by rw [settle_pending, if_pos rfl]; rfl)
      hst (by rw [settle_kernel, hk, hkind, hn]; exact hd)
    refine ⟨2, s', ?_, h⟩
    rw [run, hstep]
    exact hs'
  cases hb with
  | refused errno x h₀ hx =>
    cases x with
    | inl x => exact absurd h₀ (hr x hx)
    | inr x => exact absurd h₀ (hr' x hx)
  | returns s' =>
    refine ⟨0, settle t (s', .inl .ok), run_one.trans hstep, ?_, settle_result⟩
    rw [settle_pending, if_pos rfl]
    rfl
  | closing h₁ hl => exact hgo rfl rfl rfl rfl (.inl rfl)
  | unlinking => exact hgo rfl rfl rfl rfl (.inr rfl)

/-- **Failed closes and unlinks can be retried**, in every state of a run in which unlinks delete the objects that they go
on to delete. -/
theorem retriable_of_path {k₀ : Kernel} {as : List NamedAct} (hp : Path (Next step) UnlinkDeletes (init k₀) as s) :
    Retriable UnlinkDeletes s := by
  obtain ⟨ho, hreach⟩ := hp.invariant (I := fun s => Orderly s ∧ Reachable s)
    (fun s a s' h (hu : UnlinkDeletes s a) hstep => ⟨h.1.move (moves hstep), h.2.move hu (moves hstep)⟩)
    ⟨orderly_init k₀, nofun⟩
  exact ⟨hreach, fun t c s' errno h kind i e hc => restored ho h hc,
    fun t c kind i e hp hc hr hr' hd => retried hp hc hr hr' hd⟩

end Named

end Aixos

namespace Aixos.Named

open Transition

attribute [local instance] Config.default

/-- Three tasks run, the last of them first. -/
def booted : Kernel :=
  ((run Sys.step Sys.init (Sys.boot [{ stackSize := 512, priority := 3 }, { stackSize := 512, priority := 7 },
    { stackSize := 512, priority := 9 }] true ++ [.call .timerServiceWait, .switch])).map Sys.kernel).getD .init

def nameB : CString := ⟨[47, 98], by decide⟩

/-- Task 2 waits for an object, and task 1 runs. -/
def waits (wait : Kernel → Kernel × Outcome) : List NamedAct :=
  [.other fun k => (wait k).1, .other fun k => { k with core := k.core.contextSwitch }]

/-- A semaphore that task 2 waits for is closed and unlinked. -/
def strandedSem : List NamedAct :=
  .call 2 (.semOpen (some nameB) oCreat 0) :: waits (fun k => k.semWait ⟨0, 1⟩ forever) ++
    [.call 1 (.semClose 0), .call 1 (.semUnlink (some nameB)), .goOn 1]

/-- The same of a queue. -/
def strandedMq : List NamedAct :=
  .call 2 (.mqOpen (some nameB) oCreat (some ⟨2, 4⟩) true) :: waits (fun k => k.mqRecv ⟨0, 1⟩ 4 forever) ++
    [.call 1 (.mqClose ⟨0, 1⟩), .call 1 (.mqUnlink (some nameB)), .goOn 1]

/-- A semaphore that task 2 waits for is unlinked and closed, and closed again when task 2 no longer waits. -/
def closedAgain : List NamedAct :=
  .call 2 (.semOpen (some nameB) oCreat 0) :: waits (fun k => k.semWait ⟨0, 1⟩ forever) ++
    [.call 1 (.semUnlink (some nameB)), .call 1 (.semClose 0), .goOn 1, .goOn 1, .other fun k => (k.semPost ⟨0, 1⟩).1,
      .call 1 (.semClose 0), .goOn 1, .goOn 1]

instance [Config] (s : Named) (a : NamedAct) : Decidable (UnlinkDeletes s a) :=
  match a with
  | .goOn t => decidable_of_iff ((s.pending t).all (fun p => decide (p.stage = .unlinkDelete →
      s.kernel.Deletable p.kind.objKind p.native)) = true) (by
        constructor
        · rintro h t kind i x ⟨⟩ hp
          rw [hp] at h
          exact of_decide_eq_true h rfl
        · intro h
          rw [Option.all_eq_true]
          rintro ⟨st, kind, i, x⟩ hp
          exact decide_eq_true (by rintro ⟨⟩; exact h t kind i x rfl hp))
  | .call .. | .other _ => isTrue (by rintro t kind i h ⟨⟩)

theorem closedAgain_retriable : ∃ s, Path (Next step) UnlinkDeletes (init booted) closedAgain s ∧
    s.entry .sem 0 = none ∧ s.result 1 = some .ok ∧ Retriable UnlinkDeletes s := by
  obtain ⟨s, hp, h⟩ := exists_path step UnlinkDeletes (init booted) closedAgain (fun s => decide (s.entry .sem 0 = none ∧
    s.result 1 = some .ok)) (by decide +kernel)
  obtain ⟨h₀, h₁⟩ := of_decide_eq_true h
  exact ⟨s, hp, h₀, h₁, retriable_of_path hp⟩

/-- An unlink that fails leaves an entry without a name and without references, of a semaphore and of a queue. -/
theorem stranded_not_retriable :
    (∃ s, run step (init booted) strandedSem = some s ∧ s.result 1 = some (.failed Posix.Errno.busy) ∧
      s.entry .sem 0 = some ⟨nameB, ⟨0, 1⟩, 0, true⟩ ∧ ¬ Retriable (fun _ _ => True) s) ∧
    ∃ s, run step (init booted) strandedMq = some s ∧ s.result 1 = some (.failed Posix.Errno.busy) ∧
      s.entry .mq 0 = some ⟨nameB, ⟨0, 1⟩, 0, true⟩ ∧ ¬ Retriable (fun _ _ => True) s := by
  -- all calls have returned
  have hidle : ∀ {as : List NamedAct} {s}, run step (init booted) as = some s → s.pending 1 = none → s.pending 2 = none →
      (∀ a ∈ as, ∀ t c, a = .call t c → t = 1 ∨ t = 2) → ∀ t, s.pending t = none := by
    intro as s h h₁ h₂ ha t
    by_cases ht : t = 1 ∨ t = 2
    · rcases ht with rfl | rfl
      · exact h₁
      · exact h₂
    · refine ((path_iff_run.mpr h).both ha).invariant (I := fun s => s.pending t = none)
        (fun s a s' hs hc hstep => idle_move (moves hstep) hs fun c e => ht (hc.2 t c e)) rfl
  have hnot : ∀ {s : Named} {kind} {e : NamedEntry}, s.entry kind 0 = some e → e.unlinked = true → e.references = 0 →
      (∀ t, s.pending t = none) → ¬ Retriable (fun _ _ => True) s := by
    intro s kind e he hl hr hp h
    rcases h.reachable kind 0 e he with h | h | h
    · rw [hl] at h
      cases h
    · exact h hr
    · exact h fun t p ht => by rw [hp t] at ht; cases ht
  constructor
  · obtain ⟨s, h, hp⟩ := exists_run step (init booted) strandedSem (fun s => decide (s.pending 1 = none ∧
      s.pending 2 = none ∧ s.result 1 = some (.failed Posix.Errno.busy) ∧
      s.entry .sem 0 = some ⟨nameB, ⟨0, 1⟩, 0, true⟩)) (by decide +kernel)
    obtain ⟨h₁, h₂, hr, he⟩ := of_decide_eq_true hp
    exact ⟨s, h, hr, he, hnot he rfl rfl (hidle h h₁ h₂ (by simp [strandedSem, waits]))⟩
  · obtain ⟨s, h, hp⟩ := exists_run step (init booted) strandedMq (fun s => decide (s.pending 1 = none ∧
      s.pending 2 = none ∧ s.result 1 = some (.failed Posix.Errno.busy) ∧
      s.entry .mq 0 = some ⟨nameB, ⟨0, 1⟩, 0, true⟩)) (by decide +kernel)
    obtain ⟨h₁, h₂, hr, he⟩ := of_decide_eq_true hp
    exact ⟨s, h, hr, he, hnot he rfl rfl (hidle h h₁ h₂ (by simp [strandedMq, waits]))⟩

end Aixos.Named
