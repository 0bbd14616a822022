/-!
The dialogue of a walk with its function: the walk asks for one node after another, and which node it
asks for next depends on the answers so far. A walk that can run in any monad can run in this one,
where nothing but asking happens, and every other run of it carries this dialogue out
(`Walk.Natural.eq_run`). So what holds of a dialogue, whatever is asked, holds of every walk.
-/

namespace MarkdownTree

variable {N A B α β : Type} {m n : Type → Type}

/-- Questions about nodes `N` with answers `A`, and a value in the end. -/
inductive Dialogue (N A α : Type) where
  | done (value : α)
  | ask (node : N) (next : A → Dialogue N A α)

namespace Dialogue

protected def bind : Dialogue N A α → (α → Dialogue N A β) → Dialogue N A β
  | .done a, k => k a
  | .ask node next, k => .ask node fun answer => (next answer).bind k

instance : Monad (Dialogue N A) where
  pure := .done
  bind := Dialogue.bind

/-- The dialogue of a single question, its value the answer. -/
def question (node : N) : Dialogue N A A := .ask node .done

/-- Carries a dialogue out: `f` gives the answers. -/
def run [Monad m] (f : N → m A) : Dialogue N A α → m α
  | .done a => pure a
  | .ask node next => do
    let answer ← f node
    (next answer).run f

theorem run_question [Monad m] [LawfulMonad m] (f : N → m A) (node : N) :
    (question node).run f = f node := by
  simp [question, run]

theorem run_bind [Monad m] [LawfulMonad m] (f : N → m A) (d : Dialogue N A α)
    (k : α → Dialogue N A β) : (d >>= k).run f = d.run f >>= fun a => (k a).run f := by
  induction d with
  | done a =>
    rw [run, pure_bind]
    rfl
  | ask node next ih =>
    have step : (ask node next >>= k).run f = f node >>= fun answer => (next answer >>= k).run f :=
      rfl
    rw [step, run, bind_assoc]
    exact bind_congr ih

end Dialogue

/-! ### Maps between monads -/

/-- A map from one monad to another that respects values and sequence. -/
structure MonadHom (m n : Type → Type) [Monad m] [Monad n] where
  map : {α : Type} → m α → n α
  map_pure {α : Type} (a : α) : map (pure a) = pure a
  map_bind {α β : Type} (x : m α) (k : α → m β) : map (x >>= k) = map x >>= fun a => map (k a)

/-- Carrying dialogues out by `f`. -/
def Dialogue.hom [Monad m] [LawfulMonad m] (f : N → m A) : MonadHom (Dialogue N A) m where
  map := Dialogue.run f
  map_pure _ := rfl
  map_bind := Dialogue.run_bind f

/-! ### Walks in any monad -/

/-- A walk that makes a `B`, by a function that gives an `A` for a node, in whatever monad the
function runs. -/
abbrev Walk (N A B : Type) := (m : Type → Type) → [Monad m] → (N → m A) → m B

namespace Walk

/-- The walk does the same in every monad: it commutes with the maps between them. -/
def Natural (walk : Walk N A B) : Prop :=
  ∀ {m n : Type → Type} [Monad m] [Monad n] (φ : MonadHom m n) (f : N → m A),
    φ.map (walk m f) = walk n fun node => φ.map (f node)

/-- What a walk asks. -/
def dialogue (walk : Walk N A B) : Dialogue N A B := walk (Dialogue N A) Dialogue.question

/-- **Every run of a natural walk carries out its dialogue.** -/
theorem Natural.eq_run {walk : Walk N A B} (h : walk.Natural) [Monad m] [LawfulMonad m]
    (f : N → m A) : walk m f = walk.dialogue.run f := by
  have here := h (Dialogue.hom f) Dialogue.question
  simp only [Dialogue.hom, Dialogue.run_question] at here
  exact here.symm

end Walk

end MarkdownTree
