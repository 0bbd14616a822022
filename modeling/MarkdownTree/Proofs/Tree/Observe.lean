import MarkdownTree.Proofs.Tree.Texts
import MarkdownTree.Proofs.Walk.Early

/-!
Replacing by a function that only observes: it is called on each node, and leaves the node where it is.
Such a replacing goes as the collecting by the same observer, although it takes every container apart and
builds it again before the observer sees it. Main statement: `Document.observing_runs`.
-/

namespace MarkdownTree

variable {m : Type → Type} [Monad m] {N α : Type}

/-! ### Observers -/

/-- Shows a node to an observer and leaves it where it is. -/
def observeKeeping (g : N → m Unit) (node : N) : m (List N) := do
  g node
  pure [node]

/-- Shows a node to an observer and collects nothing from it. -/
def observeOnly (α : Type) (g : N → m Unit) (node : N) : m (List α) := do
  g node
  pure []

/-- `f` leaves every node where it is, after it has done what `c` does to collect from it. -/
def KeepsWhere (f : N → m (List N)) (c : N → m (List α)) : Prop :=
  ∀ node, f node = (fun _ => [node]) <$> c node

section Lawful

variable [LawfulMonad m]

theorem keepsWhere_observe (g : N → m Unit) : KeepsWhere (observeKeeping g) (observeOnly α g) := by
  intro node
  simp [observeKeeping, observeOnly]

/-- Collecting by an observer comes to nothing. -/
theorem collectEach_observeOnly (g : N → m Unit) (nodes : List N) :
    collectEach (observeOnly α g) nodes = (fun _ => []) <$> collectEach (observeOnly α g) nodes := by
  induction nodes with
  | nil => simp [collectEach]
  | cons node nodes ih =>
    rw [collectEach, ih]
    simp [observeOnly]

/-! ### Keeping every inline -/

section Inlines

variable {f : Inline → m (List Inline)} {c : Inline → m (List α)}

mutual

theorem Inline.replace_of_keeps (h : KeepsWhere f c) : ∀ x : Inline,
    Inline.replace f x = (fun _ => [x]) <$> Inline.collect c x
  | .leaf node => h _
  | .span kind children => by
    have inside := Inline.replaceAll_of_keeps h children
    rw [Inline.replace, Inline.collect, inside]
    simp [h (.span kind children)]

theorem Inline.replaceAll_of_keeps (h : KeepsWhere f c) : ∀ xs : List Inline,
    Inline.replaceAll f xs = (fun _ => xs) <$> Inline.collectAll c xs
  | [] => by rw [Inline.replaceAll, Inline.collectAll, map_pure]
  | x :: xs => by
    have here := Inline.replace_of_keeps h x
    have later := Inline.replaceAll_of_keeps h xs
    rw [Inline.replaceAll, Inline.collectAll, here, later]
    simp

end

end Inlines

/-! ### Keeping every block -/

section Blocks

variable {f : Block → m (List Block)} {c : Block → m (List α)}

mutual

theorem Block.replace_of_keeps (h : KeepsWhere f c) : ∀ b : Block,
    Block.replace f b = (fun _ => [b]) <$> Block.collect c b
  | .leaf node => h _
  | .carrier kind text => h _
  | .list type items => by
    have inside := Block.replaceItems_of_keeps h items
    rw [Block.replace, Block.collect, inside]
    simp [h (.list type items)]
  | .quote blocks => by
    have inside := Block.replaceAll_of_keeps h blocks
    rw [Block.replace, Block.collect, inside]
    simp [h (.quote blocks)]

theorem Block.replaceAll_of_keeps (h : KeepsWhere f c) : ∀ bs : List Block,
    Block.replaceAll f bs = (fun _ => bs) <$> Block.collectAll c bs
  | [] => by rw [Block.replaceAll, Block.collectAll, map_pure]
  | b :: bs => by
    have here := Block.replace_of_keeps h b
    have later := Block.replaceAll_of_keeps h bs
    rw [Block.replaceAll, Block.collectAll, here, later]
    simp

theorem Block.replaceItems_of_keeps (h : KeepsWhere f c) : ∀ items : List (List Block),
    Block.replaceItems f items = (fun _ => items) <$> Block.collectItems c items
  | [] => by rw [Block.replaceItems, Block.collectItems, map_pure]
  | item :: items => by
    have here := Block.replaceAll_of_keeps h item
    have later := Block.replaceItems_of_keeps h items
    rw [Block.replaceItems, Block.collectItems, here, later]
    simp

end

end Blocks

/-- A function that keeps the inlines makes one that keeps the blocks around them. -/
theorem KeepsWhere.ownInlines {f : Inline → m (List Inline)} {c : Inline → m (List α)}
    (h : KeepsWhere f c) : KeepsWhere (Block.replaceOwnInlines f) (Block.collectOwnInlines c) := by
  intro b
  rw [Block.replaceOwnInlines_eq, Block.collectOwnInlines_eq]
  cases b with
  | carrier kind text =>
    rw [Block.replaceWithText, Block.collectText, Inline.replaceAll_of_keeps h]
    simp [keepNode]
  | leaf node | list type items | quote blocks =>
    rw [Block.collectText, map_pure]
    rfl

/-! ### Documents -/

theorem Document.replaceBlocks_observing (g : Block → m Unit) (doc : Document) :
    doc.replaceBlocks (observeKeeping g) =
      (fun _ => doc) <$> doc.collectBlocks (observeOnly α g) :=
  Block.replaceAll_of_keeps (keepsWhere_observe g) doc

theorem Document.replaceInlines_observing (g : Inline → m Unit) (doc : Document) :
    doc.replaceInlines (observeKeeping g) =
      (fun _ => doc) <$> doc.collectInlines (observeOnly α g) := by
  have keeps : KeepsWhere (Block.replaceOwnInlines (observeKeeping g))
      (Block.collectOwnInlines (observeOnly α g)) := (keepsWhere_observe g).ownInlines
  rw [Document.replaceInlines_eq, Document.collectInlines_eq_collectBlocks]
  exact Block.replaceAll_of_keeps keeps doc

theorem Document.collectBlocks_observing (g : Block → m Unit) (doc : Document) :
    doc.collectBlocks (observeOnly α g) = (fun _ => []) <$> doc.collectBlocks (observeOnly α g) := by
  rw [Document.collectBlocks_eq]
  exact collectEach_observeOnly g _

theorem Document.collectInlines_observing (g : Inline → m Unit) (doc : Document) :
    doc.collectInlines (observeOnly α g) =
      (fun _ => []) <$> doc.collectInlines (observeOnly α g) := by
  rw [Document.collectInlines_eq]
  exact collectEach_observeOnly g _

end Lawful

/-! ### Runs -/

section Natural

variable {n : Type → Type} [Monad n] (φ : MonadHom m n)

theorem map_observeKeeping (g : N → m Unit) (node : N) :
    φ.map (observeKeeping g node) = observeKeeping (fun node => φ.map (g node)) node := by
  simp only [observeKeeping, φ.map_bind, φ.map_pure]

theorem map_observeOnly (g : N → m Unit) (node : N) :
    φ.map (observeOnly α g node) = observeOnly α (fun node => φ.map (g node)) node := by
  simp only [observeOnly, φ.map_bind, φ.map_pure]

end Natural

namespace Walk

/-- A walk that replaces nodes, as a walk that shows them to an observer and keeps them. -/
def keepingEach {B : Type} (walk : Walk N (List N) B) : Walk N Unit B :=
  fun m _ g => walk m (observeKeeping g)

/-- A walk that collects from nodes, as a walk that shows them to an observer. -/
def observingEach {B : Type} (walk : Walk N (List α) B) : Walk N Unit B :=
  fun m _ g => walk m (observeOnly α g)

theorem Natural.keepingEach {B : Type} {walk : Walk N (List N) B} (h : walk.Natural) :
    walk.keepingEach.Natural := by
  intro m n _ _ φ g
  rw [Walk.keepingEach, h φ, Walk.keepingEach]
  exact congrArg (walk n) (funext (map_observeKeeping φ g))

theorem Natural.observingEach {B : Type} {walk : Walk N (List α) B} (h : walk.Natural) :
    walk.observingEach.Natural := by
  intro m n _ _ φ g
  rw [Walk.observingEach, h φ, Walk.observingEach]
  exact congrArg (walk n) (funext (map_observeOnly φ g))

variable {ε σ B : Type}

/-- **How a replacing goes that only observes.** It shows its observer the same nodes as the collecting
does, in the same order and the same states, and ends in the same state. An error of the observer is that
of both; without one, the replacing gives `whole` and the collecting nothing. Runs that keep a journal are
the runs themselves. -/
structure Observes (replace : Walk N (List N) B) (collect : Walk N (List α) (List α)) (whole : B)
    (g : N → Fallible ε σ Unit) (s : σ) : Prop where
  run_replace : (replace _ (observeKeeping g)).run.run s =
    ((replace.keepingEach.tryRun g s).1, (replace.keepingEach.tryRun g s).2.state)
  run_collect : (collect _ (observeOnly α g)).run.run s =
    ((collect.observingEach.tryRun g s).1, (collect.observingEach.tryRun g s).2.state)
  calls : (replace.keepingEach.tryRun g s).2.calls = (collect.observingEach.tryRun g s).2.calls
  state : (replace.keepingEach.tryRun g s).2.state = (collect.observingEach.tryRun g s).2.state
  of_error : ∀ c ∈ (replace.keepingEach.tryRun g s).2.calls, ∀ e, c.outcome = .error e →
    (replace.keepingEach.tryRun g s).1 = .error e ∧ (collect.observingEach.tryRun g s).1 = .error e
  of_all_ok : (∀ c ∈ (replace.keepingEach.tryRun g s).2.calls, c.outcome = .ok ()) →
    (replace.keepingEach.tryRun g s).1 = .ok whole ∧ (collect.observingEach.tryRun g s).1 = .ok []

/-- Where the replacing is the collecting with its value put aside, and the collecting comes to nothing,
they go as they should. -/
theorem Observes.of_eq {replace : Walk N (List N) B} {collect : Walk N (List α) (List α)} {whole : B}
    (hr : replace.Natural) (hc : collect.Natural)
    (same : ∀ {τ : Type} (g : N → Fallible ε τ Unit),
      replace _ (observeKeeping g) = (fun _ => whole) <$> collect _ (observeOnly α g))
    (nothing : ∀ {τ : Type} (g : N → Fallible ε τ Unit),
      collect _ (observeOnly α g) = (fun _ => []) <$> collect _ (observeOnly α g))
    (g : N → Fallible ε σ Unit) (s : σ) : replace.Observes collect whole g s := by
  have hreplace : replace.keepingEach.tryRun g s =
      Prod.map (Except.map fun _ => whole) id (collect.observingEach.tryRun g s) :=
    tryRun_eq_map same g s
  have hcollect : collect.observingEach.tryRun g s =
      Prod.map (Except.map fun _ => []) id (collect.observingEach.tryRun g s) :=
    tryRun_eq_map nothing g s
  have hcalls : (replace.keepingEach.tryRun g s).2 = (collect.observingEach.tryRun g s).2 := by
    rw [hreplace, Prod.map_snd, id]
  obtain ⟨log, b, -, goes⟩ := Natural.exists_goesBy hc.observingEach () g s
  refine ⟨Natural.run_eq hr.keepingEach g s, Natural.run_eq hc.observingEach g s, by rw [hcalls],
    by rw [hcalls], ?_, ?_⟩
  · intro c hmem e he
    rw [hcalls] at hmem
    obtain ⟨i, hi⟩ := List.getElem?_of_mem hmem
    obtain ⟨-, herror, -⟩ := goes.of_error i c e hi he
    refine ⟨?_, herror⟩
    rw [hreplace, Prod.map_fst, herror]
    rfl
  · intro hok
    rw [hcalls] at hok
    obtain ⟨-, hvalue⟩ := goes.of_all_ok fun c hmem => ⟨(), hok c hmem⟩
    constructor
    · rw [hreplace, Prod.map_fst, hvalue]
      rfl
    · rw [hcollect, Prod.map_fst, hvalue]
      rfl

end Walk

/-- **A replacing that only observes goes as the collecting of the same level.** So it does for blocks and
for inlines, and without an error of the observer the document comes back. -/
theorem Document.observing_runs {ε σ : Type} (α : Type) (doc : Document) (s : σ) :
    (∀ g : Block → Fallible ε σ Unit,
      (Walk.replaceBlocks doc).Observes (Walk.collectBlocks α doc) doc g s) ∧
    (∀ g : Inline → Fallible ε σ Unit,
      (Walk.replaceInlines doc).Observes (Walk.collectInlines α doc) doc g s) := by
  constructor
  · intro g
    exact .of_eq (Walk.natural_replaceBlocks doc) (Walk.natural_collectBlocks α doc)
      (fun g => doc.replaceBlocks_observing g) (fun g => doc.collectBlocks_observing g) g s
  · intro g
    exact .of_eq (Walk.natural_replaceInlines doc) (Walk.natural_collectInlines α doc)
      (fun g => doc.replaceInlines_observing g) (fun g => doc.collectInlines_observing g) g s

end MarkdownTree
