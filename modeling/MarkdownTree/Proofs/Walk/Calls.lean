import MarkdownTree.Proofs.Walk.Dialogue

/-!
The calls of a walk: the nodes that it hands to its function, in order, with the states between which
the function worked and what it gave. They are found by running the walk with a function that keeps a
journal. Main statement: a walk that does the same in every monad ends with the first error of its
function (`Walk.Natural.abortsAtFirstError`).
-/

namespace MarkdownTree

variable {σ ε N A B R S α : Type}

/-- A step that works on a state and may fail; the state survives a failure. -/
abbrev Fallible (ε σ : Type) := ExceptT ε (StateM σ)

theorem Fallible.run_map {β : Type} (h : α → β) (x : Fallible ε σ α) (s : σ) :
    (h <$> x).run.run s = Prod.map (Except.map h) id (x.run.run s) := by
  rw [ExceptT.run_map, StateT.run_map]
  rfl

/-- Two steps in a row come to a value only where each of them does. -/
theorem Fallible.exists_of_bind_eq_ok {x : Fallible ε σ A} {k : A → Fallible ε σ B} {s s' : σ} {b : B}
    (h : (x >>= k).run.run s = (.ok b, s')) :
    ∃ a t, x.run.run s = (.ok a, t) ∧ (k a).run.run t = (.ok b, s') := by
  rw [ExceptT.run_bind, StateT.run_bind] at h
  rcases hx : x.run.run s with ⟨e | a, t⟩
  · rw [hx] at h
    cases h
  · rw [hx] at h
    exact ⟨a, t, rfl, h⟩

/-- `g` gives what `f` gives, wherever `f` does not fail. -/
def Completes (g : N → StateM σ A) (f : N → Fallible ε σ A) : Prop :=
  ∀ node s a s', (f node).run.run s = (.ok a, s') → (g node).run s = (a, s')

/-! ### Journals -/

/-- A call of a function: the node, the states before and after, and what came out. -/
structure Call (σ N R : Type) where
  node : N
  before : σ
  outcome : R
  after : σ

namespace Call

/-- What the function could see. -/
def question (c : Call σ N R) : N × σ := (c.node, c.before)

def map (h : R → S) (c : Call σ N R) : Call σ N S := ⟨c.node, c.before, h c.outcome, c.after⟩

end Call

/-- A state, with the calls so far. -/
structure Journal (σ N R : Type) where
  state : σ
  calls : List (Call σ N R)

/-- A function that keeps a journal of its calls. -/
def journaled (g : N → StateM σ R) (node : N) : StateM (Journal σ N R) R := fun j =>
  let (r, s) := (g node).run j.state
  (r, ⟨s, j.calls ++ [⟨node, j.state, r, s⟩]⟩)

/-- A function that may fail and keeps a journal, failing calls included. -/
def Fallible.journaled (f : N → Fallible ε σ A) (node : N) :
    Fallible ε (Journal σ N (Except ε A)) A :=
  ExceptT.mk (MarkdownTree.journaled (fun x => (f x).run) node)

theorem Fallible.run_journaled {f : N → Fallible ε σ A} {node : N} {s s' : σ} {r : Except ε A}
    (h : (f node).run.run s = (r, s')) (past : List (Call σ N (Except ε A))) :
    (Fallible.journaled f node).run.run ⟨s, past⟩ = (r, ⟨s', past ++ [⟨node, s, r, s'⟩]⟩) := by
  have here : (Fallible.journaled f node).run.run ⟨s, past⟩ =
      (((f node).run.run s).1, ⟨((f node).run.run s).2,
        past ++ [⟨node, s, ((f node).run.run s).1, ((f node).run.run s).2⟩]⟩) := rfl
  rw [here, h]

namespace Walk

/-- The run of a walk from a state, by a function that cannot fail: the value and the journal. -/
def plainRun (walk : Walk N A B) (g : N → StateM σ A) (s : σ) : B × Journal σ N A :=
  (walk _ (journaled g)).run ⟨s, []⟩

/-- The run of a walk from a state, by a function that may fail: what came out and the journal. -/
def tryRun (walk : Walk N A B) (f : N → Fallible ε σ A) (s : σ) :
    Except ε B × Journal σ N (Except ε A) :=
  (walk _ (Fallible.journaled f)).run.run ⟨s, []⟩

end Walk

namespace Walk

variable {C : Type} {walk : Walk N A B}

/-- Walks that come to the same by every function make the same calls. -/
theorem tryRun_congr {other : Walk N A B}
    (same : ∀ {τ : Type} (f : N → Fallible ε τ A), walk _ f = other _ f)
    (f : N → Fallible ε σ A) (s : σ) : walk.tryRun f s = other.tryRun f s := by
  rw [tryRun, same, tryRun]

/-- A walk that makes its value from that of another makes the same calls. -/
theorem tryRun_eq_map {other : Walk N A C} {h : C → B}
    (same : ∀ {τ : Type} (f : N → Fallible ε τ A), walk _ f = h <$> other _ f)
    (f : N → Fallible ε σ A) (s : σ) :
    walk.tryRun f s = Prod.map (Except.map h) id (other.tryRun f s) := by
  rw [tryRun, same, Fallible.run_map, tryRun]

end Walk

/-! ### The calls of a dialogue -/

namespace Dialogue

/-- The calls that carry out a dialogue, by a function that cannot fail. -/
def calls (g : N → StateM σ A) : Dialogue N A α → σ → List (Call σ N A)
  | .done _, _ => []
  | .ask node next, s =>
    let (a, s') := (g node).run s
    ⟨node, s, a, s'⟩ :: (next a).calls g s'

/-- The calls that carry out a dialogue, by a function that may fail: a failing call is the last. -/
def tryCalls (f : N → Fallible ε σ A) : Dialogue N A α → σ → List (Call σ N (Except ε A))
  | .done _, _ => []
  | .ask node next, s =>
    match (f node).run.run s with
    | (.ok a, s') => ⟨node, s, .ok a, s'⟩ :: (next a).tryCalls f s'
    | (.error e, s') => [⟨node, s, .error e, s'⟩]

theorem run_journaled (g : N → StateM σ A) (d : Dialogue N A α) (s : σ)
    (past : List (Call σ N A)) :
    (d.run (journaled g)).run ⟨s, past⟩ =
      (((d.run g).run s).1, ⟨((d.run g).run s).2, past ++ d.calls g s⟩) := by
  induction d generalizing s past with
  | done a =>
    rw [calls, List.append_nil]
    rfl
  | ask node next ih =>
    have step : ((ask node next).run (journaled g)).run ⟨s, past⟩ =
        ((next ((g node).run s).1).run (journaled g)).run ⟨((g node).run s).2,
          past ++ [⟨node, s, ((g node).run s).1, ((g node).run s).2⟩]⟩ := rfl
    rw [step, ih, List.append_assoc]
    rfl

section Failing

variable {f : N → Fallible ε σ A} {node : N} {s s' : σ}

theorem run_ask_ok {a : A} (h : (f node).run.run s = (.ok a, s')) (next : A → Dialogue N A α) :
    ((ask node next).run f).run.run s = ((next a).run f).run.run s' := by
  simp only [run, ExceptT.run_bind, StateT.run_bind, h]
  rfl

theorem run_ask_error {e : ε} (h : (f node).run.run s = (.error e, s'))
    (next : A → Dialogue N A α) : ((ask node next).run f).run.run s = (.error e, s') := by
  simp only [run, ExceptT.run_bind, StateT.run_bind, h]
  rfl

theorem tryCalls_ask_ok {a : A} (h : (f node).run.run s = (.ok a, s'))
    (next : A → Dialogue N A α) :
    (ask node next).tryCalls f s = ⟨node, s, .ok a, s'⟩ :: (next a).tryCalls f s' := by
  simp only [tryCalls, h]

theorem tryCalls_ask_error {e : ε} (h : (f node).run.run s = (.error e, s'))
    (next : A → Dialogue N A α) :
    (ask node next).tryCalls f s = [⟨node, s, .error e, s'⟩] := by
  simp only [tryCalls, h]

end Failing

theorem run_fallibleJournaled (f : N → Fallible ε σ A) (d : Dialogue N A α) (s : σ)
    (past : List (Call σ N (Except ε A))) :
    (d.run (Fallible.journaled f)).run.run ⟨s, past⟩ =
      (((d.run f).run.run s).1, ⟨((d.run f).run.run s).2, past ++ d.tryCalls f s⟩) := by
  induction d generalizing s past with
  | done a =>
    rw [tryCalls, List.append_nil]
    rfl
  | ask node next ih =>
    rcases h : (f node).run.run s with ⟨_ | a, s'⟩
    · have hj := Fallible.run_journaled h past
      rw [run_ask_error hj, run_ask_error h, tryCalls_ask_error h]
    · have hj := Fallible.run_journaled h past
      rw [run_ask_ok hj, run_ask_ok h, tryCalls_ask_ok h, ih, List.append_assoc]
      rfl

/-! ### The first error -/

section Abort

variable {f : N → Fallible ε σ A} {g : N → StateM σ A}

theorem run_of_all_ok (hg : Completes g f) (d : Dialogue N A α) (s : σ)
    (hok : ∀ c ∈ d.tryCalls f s, ∃ a, c.outcome = .ok a) :
    (d.run f).run.run s = (.ok ((d.run g).run s).1, ((d.run g).run s).2) ∧
      d.tryCalls f s = (d.calls g s).map (Call.map .ok) := by
  induction d generalizing s with
  | done a => exact ⟨rfl, rfl⟩
  | ask node next ih =>
    rcases h : (f node).run.run s with ⟨e | a, s'⟩
    · rw [tryCalls_ask_error h] at hok
      obtain ⟨a, ha⟩ := hok _ (List.mem_singleton_self _)
      cases ha
    · rw [tryCalls_ask_ok h] at hok ⊢
      obtain ⟨hrun, hcalls⟩ := ih a s' fun c hc => hok c (List.mem_cons_of_mem _ hc)
      have hgn := hg node s a s' h
      have hplain : ((ask node next).run g).run s = ((next a).run g).run s' := by
        rw [run, StateT.run_bind, hgn]
        rfl
      rw [run_ask_ok h, hrun, hcalls, hplain, calls, hgn]
      exact ⟨rfl, rfl⟩

theorem run_of_error (hg : Completes g f) (d : Dialogue N A α) (s : σ) {k : Nat}
    {c : Call σ N (Except ε A)} {e : ε} (hc : (d.tryCalls f s)[k]? = some c)
    (he : c.outcome = .error e) :
    (d.run f).run.run s = (.error e, c.after) ∧
      d.tryCalls f s = ((d.calls g s).take k).map (Call.map .ok) ++ [c] ∧
      (d.calls g s)[k]?.map Call.question = some c.question := by
  induction d generalizing s k with
  | done a => simp [tryCalls] at hc
  | ask node next ih =>
    rcases h : (f node).run.run s with ⟨e' | a, s'⟩
    · rw [tryCalls_ask_error h] at hc ⊢
      obtain ⟨rfl, rfl⟩ : k = 0 ∧ ⟨node, s, .error e', s'⟩ = c := by
        cases k with
        | zero => exact ⟨rfl, by simpa using hc⟩
        | succ k => simp at hc
      obtain rfl : e' = e := by simpa using he
      exact ⟨run_ask_error h next, rfl, rfl⟩
    · have hgn := hg node s a s' h
      rw [tryCalls_ask_ok h] at hc ⊢
      cases k with
      | zero =>
        obtain rfl : ⟨node, s, .ok a, s'⟩ = c := by simpa using hc
        cases he
      | succ k =>
        obtain ⟨hrun, hcalls, hlast⟩ := ih a s' (by simpa using hc)
        rw [run_ask_ok h, hrun, hcalls, calls, hgn]
        exact ⟨rfl, rfl, hlast⟩

end Abort

end Dialogue

namespace Walk

/-- **How a run that may fail relates to one that cannot.** Runs that keep a journal are the runs
themselves. A run without an error is the other run, call by call. An error is in the last call: the
calls before it are those of the other run, it was asked what the other run asks next, and its error
and its state are those of the whole run. -/
structure AbortLaw (walk : Walk N A B) (f : N → Fallible ε σ A) (g : N → StateM σ A) (s : σ) :
    Prop where
  run_plain : (walk _ g).run s = ((walk.plainRun g s).1, (walk.plainRun g s).2.state)
  run_try : (walk _ f).run.run s = ((walk.tryRun f s).1, (walk.tryRun f s).2.state)
  of_all_ok : (∀ c ∈ (walk.tryRun f s).2.calls, ∃ a, c.outcome = .ok a) →
    (walk.tryRun f s).1 = .ok (walk.plainRun g s).1 ∧
    (walk.tryRun f s).2.state = (walk.plainRun g s).2.state ∧
    (walk.tryRun f s).2.calls = (walk.plainRun g s).2.calls.map (Call.map .ok)
  of_error : ∀ k c e, (walk.tryRun f s).2.calls[k]? = some c → c.outcome = .error e →
    (walk.tryRun f s).1 = .error e ∧
    (walk.tryRun f s).2.state = c.after ∧
    (walk.tryRun f s).2.calls =
      ((walk.plainRun g s).2.calls.take k).map (Call.map .ok) ++ [c] ∧
    (walk.plainRun g s).2.calls[k]?.map Call.question = some c.question

/-- A walk ends with the first error of its function, and until then does what it would do by a
function that never fails. -/
def AbortsAtFirstError (walk : Walk N A B) : Prop :=
  ∀ {ε σ : Type} (f : N → Fallible ε σ A) (g : N → StateM σ A), Completes g f →
    ∀ s, walk.AbortLaw f g s

variable {walk : Walk N A B}

theorem Natural.plainRun_eq (h : walk.Natural) (g : N → StateM σ A) (s : σ) :
    walk.plainRun g s =
      (((walk _ g).run s).1, ⟨((walk _ g).run s).2, walk.dialogue.calls g s⟩) := by
  rw [plainRun, h.eq_run, h.eq_run, Dialogue.run_journaled, List.nil_append]

theorem Natural.tryRun_eq (h : walk.Natural) (f : N → Fallible ε σ A) (s : σ) :
    walk.tryRun f s =
      (((walk _ f).run.run s).1, ⟨((walk _ f).run.run s).2, walk.dialogue.tryCalls f s⟩) := by
  rw [tryRun, h.eq_run, h.eq_run, Dialogue.run_fallibleJournaled, List.nil_append]

theorem Natural.abortsAtFirstError (h : walk.Natural) : walk.AbortsAtFirstError := by
  intro ε σ f g hg s
  refine ⟨?_, ?_, ?_, ?_⟩
  · rw [h.plainRun_eq]
    rfl
  · rw [h.tryRun_eq]
    rfl
  · intro hok
    rw [h.tryRun_eq] at hok ⊢
    rw [h.plainRun_eq, h.eq_run, h.eq_run]
    obtain ⟨hrun, hcalls⟩ := Dialogue.run_of_all_ok hg _ s hok
    rw [hrun]
    exact ⟨rfl, rfl, hcalls⟩
  · intro k c e hc he
    rw [h.tryRun_eq] at hc ⊢
    rw [h.plainRun_eq, h.eq_run, h.eq_run]
    obtain ⟨hrun, hcalls, hlast⟩ := Dialogue.run_of_error hg _ s hc he
    rw [hrun]
    exact ⟨rfl, rfl, hcalls, hlast⟩

end Walk

end MarkdownTree
