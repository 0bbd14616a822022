import MarkdownTree.Proofs.Walk.Transcript

/-!
Runs that may end early. Where a function fails, one that does not can go on in its place, and the run
of the one is a beginning of the run of the other. So what holds of the questions and answers of a whole
run holds of those of a run that ended early (`Walk.Natural.exists_goesBy`).
-/

namespace MarkdownTree

variable {σ ε N A B α : Type}

/-! ### Going on after a failure -/

/-- What `f` gives, and a default value where it fails. -/
def completed (default : A) (f : N → Fallible ε σ A) (node : N) : StateM σ A := fun s =>
  match (f node).run.run s with
  | (.ok a, s') => (a, s')
  | (.error _, s') => (default, s')

theorem completes_completed (default : A) (f : N → Fallible ε σ A) :
    Completes (completed default f) f := by
  intro node s a s' h
  have here : (completed default f node).run s =
      match (f node).run.run s with
      | (.ok a, s') => (a, s')
      | (.error _, s') => (default, s') := rfl
  rw [here, h]

/-! ### Calls in a row -/

/-- The calls lead from one state to another: each is what `f` does, failing or not, from the state
that the one before it left. -/
def TryChain (f : N → Fallible ε σ A) : σ → List (Call σ N (Except ε A)) → σ → Prop
  | s, [], s' => s' = s
  | s, c :: cs, s' => c.before = s ∧ (f c.node).run.run s = (c.outcome, c.after) ∧
      TryChain f c.after cs s'

namespace Dialogue

theorem tryChain (f : N → Fallible ε σ A) (d : Dialogue N A α) (s : σ) :
    TryChain f s (d.tryCalls f s) ((d.run f).run.run s).2 := by
  induction d generalizing s with
  | done a => exact rfl
  | ask node next ih =>
    rcases h : (f node).run.run s with ⟨e | a, s'⟩
    · rw [tryCalls_ask_error h, run_ask_error h]
      exact ⟨rfl, h, rfl⟩
    · rw [tryCalls_ask_ok h, run_ask_ok h]
      exact ⟨rfl, h, ih a s'⟩

theorem transcript_calls (g : N → StateM σ A) (d : Dialogue N A α) (s : σ) :
    d.Transcript ((d.calls g s).map Call.exchange) ((d.run g).run s).1 := by
  induction d generalizing s with
  | done a => exact ⟨rfl, rfl⟩
  | ask node next ih =>
    exact ⟨((g node).run s).1, _, rfl, ih ((g node).run s).1 ((g node).run s).2⟩

/-- Each call of a run that may fail is also made where nothing fails, in the same place and with the
same result if it has one. -/
theorem exists_call {f : N → Fallible ε σ A} {g : N → StateM σ A} (hg : Completes g f)
    (d : Dialogue N A α) (s : σ) {i : Nat} {c : Call σ N (Except ε A)}
    (hc : (d.tryCalls f s)[i]? = some c) :
    ∃ c', (d.calls g s)[i]? = some c' ∧ c'.node = c.node ∧
      ∀ a, c.outcome = .ok a → c'.outcome = a := by
  induction d generalizing s i with
  | done a => simp [tryCalls] at hc
  | ask node next ih =>
    rcases h : (f node).run.run s with ⟨e | a, s'⟩
    · rw [tryCalls_ask_error h] at hc
      cases i with
      | zero =>
        obtain rfl : ⟨node, s, .error e, s'⟩ = c := by simpa using hc
        refine ⟨_, rfl, rfl, ?_⟩
        intro a ha
        cases ha
      | succ i => simp at hc
    · have hgn := hg node s a s' h
      rw [tryCalls_ask_ok h] at hc
      rw [calls, hgn]
      cases i with
      | zero =>
        obtain rfl : ⟨node, s, .ok a, s'⟩ = c := by simpa using hc
        exact ⟨_, rfl, rfl, fun b hb => Except.ok.inj hb⟩
      | succ i => exact ih a s' (by simpa using hc)

end Dialogue

/-! ### Runs and whole runs -/

namespace Walk

variable {walk : Walk N A B}

/-- **A run that goes by given exchanges.** The calls of the run lead from its first state to its last.
Each call is about the node of the exchange in its place, and if it does not fail it gives the answer
there. If no call fails, the run has all the exchanges and gives the given value; a call that fails is
the last one, and its error and its state are those of the run. -/
structure GoesBy (f : N → Fallible ε σ A) (s : σ) (run : Except ε B × Journal σ N (Except ε A))
    (exchanges : List (N × A)) (b : B) : Prop where
  chain : TryChain f s run.2.calls run.2.state
  calls : ∀ (i : Nat) (c : Call σ N (Except ε A)), run.2.calls[i]? = some c →
    ∃ a, exchanges[i]? = some (c.node, a) ∧ ∀ a', c.outcome = .ok a' → a' = a
  of_all_ok : (∀ c ∈ run.2.calls, ∃ a, c.outcome = .ok a) →
    run.2.calls.length = exchanges.length ∧ run.1 = .ok b
  of_error : ∀ (i : Nat) (c : Call σ N (Except ε A)) (e : ε), run.2.calls[i]? = some c →
    c.outcome = .error e → run.2.calls.length = i + 1 ∧ run.1 = .error e ∧ run.2.state = c.after

/-- A run that keeps a journal is the run itself. -/
theorem Natural.run_eq (h : walk.Natural) (f : N → Fallible ε σ A) (s : σ) :
    (walk _ f).run.run s = ((walk.tryRun f s).1, (walk.tryRun f s).2.state) := by
  rw [h.tryRun_eq]
  rfl

/-- **A run is a beginning of a whole one.** -/
theorem Natural.exists_goesBy (h : walk.Natural) (default : A) (f : N → Fallible ε σ A) (s : σ) :
    ∃ log b, walk.dialogue.Transcript log b ∧ GoesBy f s (walk.tryRun f s) log b := by
  have law := h.abortsAtFirstError f (completed default f) (completes_completed default f) s
  have htry := h.tryRun_eq f s
  have hplain := h.plainRun_eq (completed default f) s
  refine ⟨(walk.dialogue.calls (completed default f) s).map Call.exchange,
    ((walk _ (completed default f)).run s).1, ?_, ?_, ?_, ?_, ?_⟩
  · rw [h.eq_run]
    exact Dialogue.transcript_calls ..
  · rw [htry, h.eq_run]
    exact Dialogue.tryChain ..
  · intro i c hc
    rw [htry] at hc
    obtain ⟨c', hc', hnode, hout⟩ :=
      Dialogue.exists_call (completes_completed default f) walk.dialogue s hc
    refine ⟨c'.outcome, ?_, fun a ha => (hout a ha).symm⟩
    rw [List.getElem?_map, hc', Option.map_some, Call.exchange, hnode]
  · intro hok
    obtain ⟨hvalue, -, hcalls⟩ := law.of_all_ok hok
    rw [hcalls, hvalue, hplain, List.length_map, List.length_map]
    exact ⟨rfl, rfl⟩
  · intro i c e hc he
    obtain ⟨hvalue, hstate, hcalls, -⟩ := law.of_error i c e hc he
    refine ⟨?_, hvalue, hstate⟩
    obtain ⟨hi, -⟩ := List.getElem?_eq_some_iff.mp hc
    have hlen := congrArg List.length hcalls
    rw [List.length_append, List.length_map, List.length_take, List.length_singleton] at hlen
    omega

end Walk

end MarkdownTree
