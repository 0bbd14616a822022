import MarkdownTree.Proofs.Walk.Transcript

/-!
Walks that ask about given nodes, whatever the answers are. Such a walk makes one call for each of the
nodes, in order, and makes its value from the nodes and what was answered. Main statement:
`Walk.Natural.visitsAll`.
-/

namespace MarkdownTree

variable {σ ε N A B α : Type}

/-! ### Laws of dialogues -/

instance : LawfulMonad (Dialogue N A) := LawfulMonad.mk' (Dialogue N A)
  (fun d => by
    induction d with
    | done a => rfl
    | ask node next ih => exact congrArg (Dialogue.ask node) (funext ih))
  (fun _ _ => rfl)
  (fun d k l => by
    induction d with
    | done a => rfl
    | ask node next ih => exact congrArg (Dialogue.ask node) (funext ih))

/-- If no call fails, a run gives a value. -/
theorem Dialogue.exists_run_eq_ok {f : N → Fallible ε σ A} (d : Dialogue N A α) (s : σ)
    (hok : ∀ c ∈ d.tryCalls f s, ∃ a, c.outcome = .ok a) :
    ∃ a s', (d.run f).run.run s = (.ok a, s') := by
  induction d generalizing s with
  | done a => exact ⟨a, s, rfl⟩
  | ask node next ih =>
    rcases h : (f node).run.run s with ⟨e | a, s'⟩
    · rw [tryCalls_ask_error h] at hok
      obtain ⟨a, ha⟩ := hok _ (List.mem_singleton_self _)
      cases ha
    · rw [tryCalls_ask_ok h] at hok
      rw [run_ask_ok h]
      exact ih a s' fun c hc => hok c (List.mem_cons_of_mem _ hc)

/-! ### Functions that cannot fail -/

/-- A function that cannot fail, as one that may. -/
def unfailing (g : N → StateM σ A) (node : N) : Fallible Empty σ A := ExceptT.lift (g node)

theorem run_unfailing (g : N → StateM σ A) (node : N) (s : σ) :
    (unfailing g node).run.run s = (.ok ((g node).run s).1, ((g node).run s).2) := rfl

theorem completes_unfailing (g : N → StateM σ A) : Completes g (unfailing g) := by
  intro node s a s' h
  rw [run_unfailing, Prod.mk.injEq] at h
  obtain ⟨ha, hs⟩ := h
  exact Prod.ext (Except.ok.inj ha) hs

theorem Call.eq_of_map_ok_eq (c d : Call σ N A)
    (h : (c.map .ok : Call σ N (Except ε A)) = d.map .ok) : c = d := by
  obtain ⟨node, before, a, after⟩ := c
  obtain ⟨node', before', a', after'⟩ := d
  simpa [Call.map] using h

namespace Walk

variable {walk : Walk N A B} {nodes : List N} {value : List (N × A) → B}

/-- What the walk asks is about the given nodes in order, and its value is made from the answers. -/
def Reads (walk : Walk N A B) (nodes : List N) (value : List (N × A) → B) : Prop :=
  ∀ log b, walk.dialogue.Transcript log b → log.map Prod.fst = nodes ∧ b = value log

/-- **How a walk goes that asks about given nodes.** It calls its function once for each of them, in
order and for nothing else, each call in the state that the one before it left; and it makes its value
from the nodes and the results. So it does by a function that cannot fail, and by one that may but does
not. -/
structure VisitsAll (walk : Walk N A B) (nodes : List N) (value : List (N × A) → B) : Prop where
  plain : ∀ {σ : Type} (g : N → StateM σ A) (s : σ), ∃ calls s',
    (walk _ g).run s = (value (calls.map Call.exchange), s') ∧
    walk.plainRun g s = (value (calls.map Call.exchange), ⟨s', calls⟩) ∧
    calls.map Call.node = nodes ∧ Chain (unfailing g) s calls s'
  fallible : ∀ {ε σ : Type} (f : N → Fallible ε σ A) (s : σ),
    (∀ c ∈ (walk.tryRun f s).2.calls, ∃ a, c.outcome = .ok a) → ∃ calls s',
    (walk _ f).run.run s = (.ok (value (calls.map Call.exchange)), s') ∧
    walk.tryRun f s = (.ok (value (calls.map Call.exchange)), ⟨s', calls.map (Call.map .ok)⟩) ∧
    calls.map Call.node = nodes ∧ Chain f s calls s'

theorem Natural.visits_fallible (h : walk.Natural) (hr : walk.Reads nodes value)
    (f : N → Fallible ε σ A) (s : σ)
    (hok : ∀ c ∈ (walk.tryRun f s).2.calls, ∃ a, c.outcome = .ok a) : ∃ calls s',
    (walk _ f).run.run s = (.ok (value (calls.map Call.exchange)), s') ∧
    walk.tryRun f s = (.ok (value (calls.map Call.exchange)), ⟨s', calls.map (Call.map .ok)⟩) ∧
    calls.map Call.node = nodes ∧ Chain f s calls s' := by
  rw [h.tryRun_eq] at hok
  obtain ⟨b, s', hrun⟩ := Dialogue.exists_run_eq_ok walk.dialogue s hok
  rw [← h.eq_run] at hrun
  obtain ⟨calls, htry, hchain, htranscript⟩ := h.exists_transcript hrun
  obtain ⟨hnodes, rfl⟩ := hr _ _ htranscript
  rw [Call.map_fst_exchange] at hnodes
  exact ⟨calls, s', hrun, htry, hnodes, hchain⟩

/-- **A walk that asks about given nodes calls its function once for each.** -/
theorem Natural.visitsAll (h : walk.Natural) (hr : walk.Reads nodes value) :
    walk.VisitsAll nodes value := by
  refine ⟨?_, fun f s => h.visits_fallible hr f s⟩
  intro σ g s
  have hok : ∀ c ∈ (walk.tryRun (unfailing g) s).2.calls, ∃ a, c.outcome = .ok a := by
    intro c _
    cases c.outcome with
    | ok a => exact ⟨a, rfl⟩
    | error e => exact e.elim
  have law := h.abortsAtFirstError (unfailing g) g (completes_unfailing g) s
  obtain ⟨calls, s', -, htry, hnodes, hchain⟩ := h.visits_fallible hr (unfailing g) s hok
  obtain ⟨hvalue, hstate, hcalls⟩ := law.of_all_ok hok
  rcases hplain : walk.plainRun g s with ⟨b, t, past⟩
  rw [htry, hplain] at hvalue hstate hcalls
  obtain rfl : value (calls.map Call.exchange) = b := Except.ok.inj hvalue
  obtain rfl : s' = t := hstate
  obtain rfl : calls = past := (List.map_inj_right Call.eq_of_map_ok_eq).mp hcalls
  refine ⟨calls, s', ?_, rfl, hnodes, hchain⟩
  rw [law.run_plain, hplain]

end Walk

end MarkdownTree
