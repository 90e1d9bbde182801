import DirectiveFlow.Proofs.GroupRun
import DirectiveFlow.Proofs.Keys
import DirectiveFlow.Proofs.Stages
import DirectiveFlow.Standard

namespace DirectiveFlow

variable {settings : Settings} {env env' : Environment}

theorem value?_lastCombine {pre post : List Combine} {w : Combine} {name : String}
    (h : (runStages settings env ((pre ++ w :: post).map .combine)).result = .ok env')
    (hw : w.output = name) (ho : ∀ c ∈ post, c.output ≠ name)
    (hk : ∀ c ∈ post, c.partials ≠ name) :
    ∃ mid values result, (runStages settings env (pre.map .combine)).result = .ok mid ∧
      mid.value? w.partials = some (.list values) ∧ w.reduction.Gives values result ∧
      env'.value? name = some result := by
  rw [List.map_append, runStages_append, bind_eq_ok] at h
  obtain ⟨mid, hpre, h⟩ := h
  obtain ⟨next, hrun, hpost⟩ := runStages_cons_eq_ok.mp h
  obtain ⟨values, result, hv, hg, hout⟩ := Combine.value?_output hrun
  refine ⟨mid, values, result, hpre, hv, hg, ?_⟩
  rw [value?_runCombines hpost (fun c hc => (ho c hc).symm) (fun c hc => (hk c hc).symm), ← hw]
  exact hout

/-- A combine reads what the workers of its group made of its own fold, unless a combine of the
group in front of it has its key for an output. Then it reads what the last of those folded. -/
theorem Flow.combine_reads {r : Repertoire} {lines : List String} {f : Flow}
    {before after : List Stage} {c : Combine} (hf : Flow.ofLines r lines = .ok f)
    (hp : ∀ s ∈ r.steps lines, s.NamesPlain) (hs : f.stages = before ++ .combine c :: after)
    (hr : (runStages settings f.declared before).result = .ok env) :
    ∃ front g earlier place start rows own,
      before = front ++ .group g :: earlier.map .combine ∧
      g.members[place]? = some c.member ∧
      (runStages settings f.declared front).result = .ok start ∧
      start.rowsFor g.name g.requests = .ok rows ∧
      List.Forall₂ (g.FoldsTo place c.item c.reduction)
        ((shares (settings.rowsOf rows) settings.workerCount).filter fun share => !share.isEmpty)
        own ∧
      ((∀ e ∈ earlier, e.output ≠ c.partials) → env.value? c.partials = some (.list own)) ∧
      ∀ pre w post, earlier = pre ++ w :: post → w.output = c.partials →
        (∀ e ∈ post, e.output ≠ c.partials) →
        ∃ mid values result,
          (runStages settings f.declared (front ++ .group g :: pre.map .combine)).result = .ok mid ∧
          mid.value? w.partials = some (.list values) ∧ w.reduction.Gives values result ∧
          env.value? c.partials = some result := by
  obtain ⟨front, g, earlier, later, rfl, hg⟩ := (Flow.formed_of_lines hf).combine hs
  have hplain : ∀ e ∈ earlier ++ c :: later, Plain e.item :=
    fun e he => ((hg.called e he).plain hp).1
  have hkeys : ∀ e ∈ earlier, e.partials ≠ c.partials := fun e he =>
    ((List.pairwise_append.mp (hg.combines_apart hplain)).2.2 e he c List.mem_cons_self).1
  obtain ⟨place, hm⟩ := hg.exists_fold (List.mem_append_right earlier List.mem_cons_self)
  rw [runStages_append, bind_eq_ok] at hr
  obtain ⟨start, hfront, hr⟩ := hr
  obtain ⟨next, hgroup, hcombines⟩ := runStages_cons_eq_ok.mp hr
  obtain ⟨rows, own, hrows, hown, hv⟩ := hg.value?_partials (hg.nodup_partials hplain) hgroup hm
  refine ⟨front, g, earlier, place, start, rows, own, rfl, hm, hfront, hrows, hown,
    fun ho => ?_, ?_⟩
  · rw [value?_runCombines hcombines (fun e he => (ho e he).symm) (fun e he => (hkeys e he).symm)]
    exact hv
  · rintro pre w post rfl hw ho
    obtain ⟨mid, values, result, hpre, hvalues, hgives, hres⟩ := value?_lastCombine hcombines hw ho
      fun e he => hkeys e (List.mem_append_right pre (List.mem_cons_of_mem w he))
    refine ⟨mid, values, result, ?_, hvalues, hgives, hres⟩
    rw [runStages_append, hfront, ok_bind]
    exact runStages_cons_eq_ok.mpr ⟨next, hgroup, hpre⟩

/-- The sum of one item is written where the other item's reducer left its maximum. -/
theorem Flow.combine_reads_sum : ∃ f before c after env,
    Flow.ofLines Standard.repertoire
      ["lst (> a) 3", "lst (> b) 3", "reduce_sum (a > b)", "reduce_max (b > c)"] = .ok f ∧
    (∀ s ∈ Standard.repertoire.steps
      ["lst (> a) 3", "lst (> b) 3", "reduce_sum (a > b)", "reduce_max (b > c)"], s.NamesPlain) ∧
    f.stages = before ++ .combine c :: after ∧
    (runStages ⟨1, false, 0⟩ f.declared before).result = .ok env ∧
    env.value? c.partials = some (.int 3) ∧
    ∃ (front : List Stage) (g : Group) (earlier : List Combine) (place : Nat) (rows : List Row)
      (own : List Value), before = front ++ .group g :: earlier.map .combine ∧
      List.Forall₂ (g.FoldsTo place c.item c.reduction)
        ((shares rows 1).filter fun share => !share.isEmpty) own ∧
      ∃ e ∈ earlier, e.output = c.partials := by
  obtain ⟨f, before, c, after, env, hf, hs, hr, hv⟩ : ∃ f before c after env,
      Flow.ofLines Standard.repertoire
        ["lst (> a) 3", "lst (> b) 3", "reduce_sum (a > b)", "reduce_max (b > c)"] = .ok f ∧
      f.stages = before ++ .combine c :: after ∧
      (runStages ⟨1, false, 0⟩ f.declared before).result = .ok env ∧
      env.value? c.partials = some (.int 3) :=
    ⟨_, [_, _, _, _], _, _, _, rfl, rfl, rfl, rfl⟩
  have hp : ∀ s ∈ Standard.repertoire.steps
      ["lst (> a) 3", "lst (> b) 3", "reduce_sum (a > b)", "reduce_max (b > c)"], s.NamesPlain := by
    decide +kernel
  obtain ⟨front, g, earlier, place, start, rows, own, hb, -, -, -, hown, hkept, -⟩ :=
    Flow.combine_reads hf hp hs hr
  refine ⟨f, before, c, after, env, hf, hp, hs, hr, hv, front, g, earlier, place, rows, own, hb,
    hown, ?_⟩
  by_contra hn
  have he := hkept fun e he ho => hn ⟨e, he, ho⟩
  rw [hv] at he
  cases he

end DirectiveFlow
