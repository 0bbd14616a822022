import MarkdownTree.Proofs.Address
import MarkdownTree.Proofs.Walk.Transcript

/-!
Transcripts by place. What a walk asks about a place may depend on the answers for other places, and
`ByPlace` says how, once for all the answers that a function could give.
-/

namespace MarkdownTree

variable {N A P : Type}

/-- A transcript has an exchange for each place, in order; and if the answers are the results for the
addresses of the places, then each question is the one that belongs to its place, and some more holds
of the results. -/
def ByPlace (ask : (Address → A) → Address × P → N) (log : List (N × A))
    (places : List (Address × P)) (more : (Address → A) → Prop) : Prop :=
  log.length = places.length ∧
    ∀ result, log.map Prod.snd = places.map (fun o => result o.1) →
      log.map Prod.fst = places.map (ask result) ∧ more result

theorem exists_eq_map {ι β : Type} [DecidableEq ι] [Inhabited β] : ∀ {ps : List ι} {vs : List β},
    ps.Nodup → vs.length = ps.length → ∃ value : ι → β, vs = ps.map value
  | [], [], _, _ => ⟨fun _ => default, rfl⟩
  | p :: ps, v :: vs, hnodup, hlen => by
    obtain ⟨hp, hps⟩ := List.nodup_cons.mp hnodup
    obtain ⟨value, rfl⟩ := exists_eq_map hps (by simpa using hlen)
    refine ⟨fun q => if q = p then v else value q, ?_⟩
    rw [List.map_cons, if_pos rfl]
    congr 1
    refine List.map_congr_left fun q hq => (if_neg ?_).symm
    rintro rfl
    exact hp hq

namespace ByPlace

variable {ask : (Address → A) → Address × P → N} {log log' : List (N × A)}
  {places places' : List (Address × P)} {more more' : (Address → A) → Prop}

theorem nil (h : ∀ result, more result) : ByPlace ask [] [] more :=
  ⟨rfl, fun result _ => ⟨rfl, h result⟩⟩

theorem append (h : ByPlace ask log places more) (h' : ByPlace ask log' places' more') :
    ByPlace ask (log ++ log') (places ++ places') fun result => more result ∧ more' result := by
  obtain ⟨hlen, hask⟩ := h
  obtain ⟨hlen', hask'⟩ := h'
  constructor
  · rw [List.length_append, List.length_append, hlen, hlen']
  · intro result hans
    rw [List.map_append, List.map_append] at hans
    obtain ⟨hans₁, hans₂⟩ := List.append_inj hans (by simp [hlen])
    obtain ⟨hq, hm⟩ := hask result hans₁
    obtain ⟨hq', hm'⟩ := hask' result hans₂
    refine ⟨?_, hm, hm'⟩
    rw [List.map_append, List.map_append, hq, hq']

/-- A node after what is below it. -/
theorem snoc {o : Address × P} {asked : N} {out : A} (h : ByPlace ask log places more)
    (hasked : ∀ result, more result → asked = ask result o) :
    ByPlace ask (log ++ [(asked, out)]) (places ++ [o]) fun result => out = result o.1 := by
  obtain ⟨hlen, hask⟩ := h
  constructor
  · rw [List.length_append, List.length_append, hlen]
    rfl
  · intro result hans
    rw [List.map_append, List.map_append] at hans
    obtain ⟨hans₁, hans₂⟩ := List.append_inj hans (by simp [hlen])
    obtain ⟨hq, hm⟩ := hask result hans₁
    refine ⟨?_, List.singleton_inj.mp hans₂⟩
    rw [List.map_append, List.map_append, hq, hasked result hm]
    rfl

theorem single {o : Address × P} {asked : N} {out : A} (h : ∀ result, asked = ask result o) :
    ByPlace ask [(asked, out)] [o] fun result => out = result o.1 := by
  have before : ByPlace ask [] [] fun _ => True := .nil fun _ => trivial
  exact before.snoc fun result _ => h result

theorem mono (h : ByPlace ask log places more) (hm : ∀ result, more result → more' result) :
    ByPlace ask log places more' := by
  obtain ⟨hlen, hask⟩ := h
  refine ⟨hlen, ?_⟩
  intro result hans
  obtain ⟨hq, hmore⟩ := hask result hans
  exact ⟨hq, hm result hmore⟩

/-- Where no two places have one address, the answers are the results for the addresses. -/
theorem exists_result [Inhabited A] (h : ByPlace ask log places more)
    (once : (places.map Prod.fst).Nodup) :
    ∃ result, log = places.map (fun o => (ask result o, result o.1)) ∧ more result := by
  obtain ⟨hlen, hask⟩ := h
  have hlen' : (log.map Prod.snd).length = (places.map Prod.fst).length := by
    simpa using hlen
  obtain ⟨result, hresult⟩ := exists_eq_map once hlen'
  rw [List.map_map] at hresult
  obtain ⟨hasked, hmore⟩ := hask result hresult
  refine ⟨result, ?_, hmore⟩
  calc log
      = (log.map Prod.fst).zip (log.map Prod.snd) := (List.zip_unzip log).symm.trans (by simp)
    _ = (places.map (ask result)).zip (places.map fun o => result o.1) := by rw [hasked, hresult]; rfl
    _ = places.map fun o => (ask result o, result o.1) := List.zip_map' ..

end ByPlace

/-- The calls of a run without an error, where every transcript of the walk goes by the places. -/
theorem Walk.Natural.exists_callsByPlace {ε σ B : Type} [Inhabited A] {walk : Walk N A B}
    (hw : walk.Natural) {ask : (Address → A) → Address × P → N} {places : List (Address × P)}
    {more : B → (Address → A) → Prop} (once : (places.map Prod.fst).Nodup)
    (byPlace : ∀ {log b}, walk.dialogue.Transcript log b → ByPlace ask log places (more b))
    {f : N → Fallible ε σ A} {s s' : σ} {b : B} (h : (walk _ f).run.run s = (.ok b, s')) :
    ∃ (calls : List (Call σ N A)) (result : Address → A),
      walk.tryRun f s = (.ok b, ⟨s', calls.map (Call.map .ok)⟩) ∧ Chain f s calls s' ∧
        calls.map Call.node = places.map (ask result) ∧
        calls.map Call.outcome = places.map (fun o => result o.1) ∧ more b result := by
  obtain ⟨calls, hrun, hchain, htranscript⟩ := hw.exists_transcript h
  obtain ⟨result, hlog, hmore⟩ := (byPlace htranscript).exists_result once
  refine ⟨calls, result, hrun, hchain, ?_, ?_, hmore⟩
  · rw [← Call.map_fst_exchange, hlog, List.map_map]
    rfl
  · rw [← Call.map_snd_exchange, hlog, List.map_map]
    rfl

end MarkdownTree
