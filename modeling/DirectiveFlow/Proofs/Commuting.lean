import DirectiveFlow.Proofs.Gathering
import DirectiveFlow.Proofs.Preparing
import DirectiveFlow.Proofs.Twins

namespace DirectiveFlow

namespace Draft

variable {d d' e : Draft} {r : Repertoire} {s A B : Step} {operation operation' : Operation}
  {line : Nat} {lines front mid back : List String} {a b text : String}

theorem addLines_append_of_ok (hf : d.addLines r line front = (d', .ok ()))
    (hb : d'.addLines r (line + front.length) back = (e, .ok ())) :
    d.addLines r line (front ++ back) = (e, .ok ()) := by
  induction front generalizing d line with
  | nil =>
    cases hf
    exact hb
  | cons text front ih =>
    obtain ⟨next, hline, hrest⟩ := addLines_cons_eq_ok hf
    rw [List.cons_append, addLines_cons_of_ok hline]
    apply ih hrest
    rw [Nat.add_assoc, Nat.add_comm 1]
    exact hb

theorem addLines_blank (hs : ∀ text ∈ lines, r.step? text = none)
    (h : d.addLines r line lines = (e, .ok ())) :
    ∃ change : Nat → Nat, ∀ d' : Draft,
      d'.addLines r line lines = ({ d' with line := change d'.line }, .ok ()) := by
  induction lines generalizing d line with
  | nil => exact ⟨id, fun _ => rfl⟩
  | cons text lines ih =>
    obtain ⟨htext, hs⟩ := List.forall_mem_cons.mp hs
    obtain ⟨next, hline, hrest⟩ := addLines_cons_eq_ok h
    obtain ⟨change, hc⟩ := ih hs hrest
    refine ⟨fun _ => change line, fun d' => ?_⟩
    rw [addLines_cons_of_ok (addLine_blank (addLine_eq_ok hline).1 htext)]
    exact hc _

/-- The draft after a parallel step on a line: its open group has accepted the task. -/
def withTask (d : Draft) (line : Nat) (s : Step) (operation : Operation) : Draft :=
  { d with
    line := line
    current := some { d.groupDraft with
      group := d.groupDraft.group.accept (.task s.name s.inputs s.outputs operation) } }

theorem addLine_parallel (hs : r.step? text = some s) (hk : s.kind = .parallel)
    (hb : s.body = .task operation) : d.addLine r line text = (e, .ok ()) ↔
      (∀ x ∈ s.inputs, d.groupDraft.group.Sees d.declared x) ∧ e = d.withTask line s operation := by
  have hadd : { d with line := line }.addStep s =
      { d with line := line }.addMember (.task s.name s.inputs s.outputs operation) := by
    simp only [addStep, hb, hk, reduceCtorEq, if_false]
  have haccept : { d with line := line }.addMember (.task s.name s.inputs s.outputs operation) =
      (e, .ok ()) ↔ (∀ x ∈ s.inputs, d.groupDraft.group.Sees d.declared x) ∧
        e = d.withTask line s operation := addMember_eq_accept
  rw [addLine_call hs, hadd, ← haccept]
  constructor
  · intro h
    obtain ⟨he, hr⟩ := Prod.mk.inj h
    exact Prod.ext he (mapError_eq_ok.mp hr)
  · intro h
    rw [h]
    rfl

/-- Two independent parallel steps are accepted in either order, and the drafts become twins. -/
theorem addLines_exchange (ha : r.step? a = some A) (hb : r.step? b = some B)
    (hmid : ∀ text ∈ mid, r.step? text = none)
    (hka : A.kind = .parallel) (hkb : B.kind = .parallel)
    (hba : A.body = .task operation) (hbb : B.body = .task operation')
    (hleft : ∀ x ∈ A.outputs, x ∉ B.inputs ∧ x ∉ B.outputs)
    (hright : ∀ x ∈ B.outputs, x ∉ A.inputs ∧ x ∉ A.outputs)
    (h : d.addLines r line (a :: (mid ++ [b])) = (e, .ok ())) :
    ∃ e', d.addLines r line (b :: (mid ++ [a])) = (e', .ok ()) ∧ e.Twin e' := by
  obtain ⟨d₁, hfirst, hrest⟩ := addLines_cons_eq_ok h
  obtain ⟨d₂, hblank, hlast⟩ := addLines_append_eq_ok hrest
  obtain ⟨change, hchange⟩ := addLines_blank hmid hblank
  obtain ⟨hsa, rfl⟩ := (addLine_parallel ha hka hba).mp hfirst
  cases (hchange _).symm.trans hblank
  obtain ⟨d₃, hsecond, hend⟩ := addLines_cons_eq_ok hlast
  cases hend
  obtain ⟨hsb, rfl⟩ := (addLine_parallel hb hkb hbb).mp hsecond
  have hind : (Member.task A.name A.inputs A.outputs operation).Independent
      (.task B.name B.inputs B.outputs operation') := ⟨⟨rfl, rfl⟩, hleft, hright⟩
  have hsb' : ∀ x ∈ B.inputs, d.groupDraft.group.Sees d.declared x := by
    intro x hx
    apply (Group.sees_accept.mp (hsb x hx)).resolve_right
    exact fun ho => (hleft x ho).1 hx
  have hsecond' : ∀ x ∈ A.inputs, (d.withTask line B operation').groupDraft.group.Sees
      d.declared x := fun x hx => Group.sees_accept.mpr (.inl (hsa x hx))
  refine ⟨withTask { d.withTask line B operation' with line := change line }
    (line + 1 + mid.length) A operation, ?_, .refl d.flow,
    .some ⟨Group.Twin.accept_comm hind d.groupDraft.group, rfl⟩⟩
  rw [addLines_cons_of_ok ((addLine_parallel hb hkb hbb).mpr ⟨hsb', rfl⟩)]
  apply addLines_append_of_ok (hchange _)
  exact addLines_cons_of_ok ((addLine_parallel ha hka hba).mpr ⟨hsecond', rfl⟩)

end Draft

section Gathered

variable {stages stages' : List Stage} {taken taken' asked : List String}

theorem Stage.Matches.mirrors {stage stage' : Stage} (h : stage.Matches Group.Twin stage')
    (hg : ∀ g g', stage = .group g → stage' = .group g' → ∀ x, x ∈ g'.gathered ↔ x ∈ g.gathered) :
    stage.Matches Group.Mirrors stage' := by
  cases h with
  | serial s => exact .serial s
  | group htwin => exact .group ⟨htwin, hg _ _ rfl rfl⟩
  | combine c => exact .combine c

theorem Gathers.mirrors (hg : Gathers taken asked stages) (hg' : Gathers taken' asked stages')
    (h : List.Forall₂ (Stage.Matches Group.Twin) stages stages')
    (ht : ∀ x, x ∈ taken' ↔ x ∈ taken) :
    List.Forall₂ (Stage.Matches Group.Mirrors) stages stages' := by
  induction h generalizing taken taken' with
  | nil => exact .nil
  | @cons stage stage' rest rest' hs hrest ih =>
    obtain ⟨hhead, hg⟩ := hg
    obtain ⟨hhead', hg'⟩ := hg'
    constructor
    · apply hs.mirrors
      rintro g g' rfl rfl x
      cases hs with
      | group htwin =>
        rw [hhead' g' rfl, hhead g rfl, htwin.partials_eq, htwin.mem_offers, ht,
          mem_flatMap_matches (fun _ _ hs => hs.mem_needs x) hrest]
    · apply ih hg hg'
      intro x
      rw [List.mem_append, List.mem_append, ht, hs.mem_offers]

end Gathered

namespace Flow

variable {r : Repertoire} {lines lines' front mid back : List String} {f f' : Flow}
  {settings : Settings} {env : Environment} {a b : String} {A B : Step}

theorem Twin.prepares (h : f.Twin f') (hp : f.Prepares) : f'.Prepares := by
  intro setup hs
  obtain ⟨operation, hm, rfl⟩ := List.mem_map.mp hs
  rw [mem_flatMap_matches (fun _ _ hs => hs.mem_operations operation) h.stages] at hm
  exact hp _ (List.mem_map_of_mem hm)

/-- Where a flow of a script succeeds, a twin of it that is the flow of a script does, with the
same environment. -/
theorem Twin.run (h : f.Twin f') (hf : Flow.ofLines r lines = .ok f)
    (hf' : Flow.ofLines r lines' = .ok f') (hr : (f.run settings).result = .ok env) :
    (f'.run settings).result = .ok env := by
  obtain ⟨prepared, hp, hrun⟩ := Run.bind_eq_ok.mp hr
  have hmirrors := (gathers_of_lines hf).mirrors (gathers_of_lines hf') h.stages fun _ => Iff.rfl
  apply Run.bind_eq_ok.mpr
  refine ⟨(), prepare_eq_ok.mpr (h.prepares (prepare_eq_ok.mp hp)), ?_⟩
  rw [h.declared]
  exact runStages_matches hmirrors (nodup_of_lines hf) (nodup_of_lines hf') hrun

/-- Two parallel steps next to one another of which neither writes what the other reads or
writes may change places: the script still has a flow, and where the one succeeds the other
does, with the same environment. -/
theorem run_exchanged (hf : Flow.ofLines r (front ++ a :: (mid ++ b :: back)) = .ok f)
    (ha : r.step? a = some A) (hb : r.step? b = some B) (hmid : ∀ text ∈ mid, r.step? text = none)
    (hka : A.kind = .parallel) (hkb : B.kind = .parallel)
    (hleft : ∀ x ∈ A.outputs, x ∉ B.inputs ∧ x ∉ B.outputs)
    (hright : ∀ x ∈ B.outputs, x ∉ A.inputs ∧ x ∉ A.outputs) :
    ∃ f', Flow.ofLines r (front ++ b :: (mid ++ a :: back)) = .ok f' ∧
      ∀ settings env, (f.run settings).result = .ok env → (f'.run settings).result = .ok env := by
  obtain ⟨operation, hba⟩ := (Repertoire.fits_of_step? ha).task (by simp [hka])
  obtain ⟨operation', hbb⟩ := (Repertoire.fits_of_step? hb).task (by simp [hkb])
  have hsplit (a b : String) : a :: (mid ++ b :: back) = a :: (mid ++ [b]) ++ back := by
    rw [List.cons_append, List.append_assoc, List.singleton_append]
  have hlines := hf
  rw [hsplit] at hf
  obtain ⟨d, closed, hd, hc, rfl⟩ := Flow.ofLines_eq_ok hf
  obtain ⟨d₀, hfront, hrest⟩ := Draft.addLines_append_eq_ok hd
  obtain ⟨d₁, hpair, hback⟩ := Draft.addLines_append_eq_ok hrest
  obtain ⟨d₁', hpair', h₁⟩ :=
    Draft.addLines_exchange ha hb hmid hka hkb hba hbb hleft hright hpair
  obtain ⟨d', hback', hd'⟩ := h₁.addLines hback
  obtain ⟨closed', hc', htwin⟩ := hd'.closeGroup hc
  have hf' : Flow.ofLines r (front ++ b :: (mid ++ a :: back)) = .ok closed'.flow := by
    rw [hsplit]
    refine Flow.ofLines_of_closeGroup (Draft.addLines_append_of_ok hfront ?_) hc'
    apply Draft.addLines_append_of_ok hpair'
    rw [← hback']
    simp only [List.length_cons, List.length_append]
  exact ⟨closed'.flow, hf', fun settings env => htwin.flow.run hlines hf'⟩

/-- The steps are parted by a blank line, and their outputs folded in the order of the script. -/
theorem run_exchanged_of_scaled :
    ∃ f f' env, Flow.ofLines Standard.repertoire
        ["lst (> a) 3", "lst (> b) 2", "incr (a)", "", "scale (b) 2", "reduce_sum (a > s)",
          "reduce_max (b > m)"] = .ok f ∧
      Flow.ofLines Standard.repertoire
        ["lst (> a) 3", "lst (> b) 2", "scale (b) 2", "", "incr (a)", "reduce_sum (a > s)",
          "reduce_max (b > m)"] = .ok f' ∧
      (f.run ⟨2, false, 0⟩).result = .ok env ∧ (f'.run ⟨2, false, 0⟩).result = .ok env := by
  obtain ⟨f, A, B, env, hf, ha, hb, hka, hkb, hleft, hright, hr⟩ : ∃ f A B env,
      Flow.ofLines Standard.repertoire (["lst (> a) 3", "lst (> b) 2"] ++
        "incr (a)" :: ([""] ++ "scale (b) 2" :: ["reduce_sum (a > s)", "reduce_max (b > m)"])) =
          .ok f ∧
      Standard.repertoire.step? "incr (a)" = some A ∧
      Standard.repertoire.step? "scale (b) 2" = some B ∧
      A.kind = .parallel ∧ B.kind = .parallel ∧
      (∀ x ∈ A.outputs, x ∉ B.inputs ∧ x ∉ B.outputs) ∧
      (∀ x ∈ B.outputs, x ∉ A.inputs ∧ x ∉ A.outputs) ∧
      (f.run ⟨2, false, 0⟩).result = .ok env :=
    ⟨_, _, _, _, rfl, rfl, rfl, rfl, rfl, by decide, by decide, rfl⟩
  have hmid : ∀ text ∈ [""], Standard.repertoire.step? text = none :=
    List.forall_mem_singleton.mpr rfl
  obtain ⟨f', hf', hrun⟩ := run_exchanged hf ha hb hmid hka hkb hleft hright
  exact ⟨f, f', env, hf, hf', hr, hrun ⟨2, false, 0⟩ env hr⟩

end Flow

end DirectiveFlow
