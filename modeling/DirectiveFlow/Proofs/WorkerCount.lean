import DirectiveFlow.Proofs.Faults
import DirectiveFlow.Proofs.GroupRun
import DirectiveFlow.Proofs.Keys
import DirectiveFlow.Proofs.Stages
import DirectiveFlow.Standard

namespace DirectiveFlow

/-- Two environments that differ only in what the workers of a group left for its combines, of
which each of the combines makes the same. -/
structure Environment.Alike (combines : List Combine) (env env' : Environment) : Prop where
  contains : ∀ name, env.contains name = env'.contains name
  value? : ∀ name, name ∉ combines.map Combine.partials → env.value? name = env'.value? name
  partials : ∀ c ∈ combines, ∃ values values', env.value? c.partials = some (.list values) ∧
    env'.value? c.partials = some (.list values') ∧ c.reduction.Alike values values'

namespace Environment.Alike

variable {settings settings' : Settings} {env env' : Environment} {c : Combine}
  {combines : List Combine}

theorem settle (h : Alike (c :: combines) env env') (result : Value)
    (ha : ∀ c' ∈ combines, c.partials ≠ c'.partials ∧ c.item ≠ c'.partials)
    (ho : c.output = c.item) :
    Alike combines (c.settle env result) (c.settle env' result) := by
  constructor
  case contains =>
    intro name
    rw [Bool.eq_iff_iff, Combine.contains_settle, Combine.contains_settle, h.contains name]
  case value? =>
    intro name hn
    rw [Combine.value?_settle, Combine.value?_settle]
    by_cases hkey : c.partials = name
    · -- the key is the output of the combine or one of its own
      by_cases hout : c.output = name
      · rw [if_pos hout, if_pos hout]
      · have hp : c.isPrivate := bne_iff_ne.mpr fun he => hout (by rw [ho, ← he, hkey])
        rw [if_neg hout, if_neg hout, if_pos ⟨hp, hkey⟩, if_pos ⟨hp, hkey⟩]
    · have hv := h.value? name fun hm => (List.mem_cons.mp hm).elim (fun he => hkey he.symm) hn
      rw [hv]
  case partials =>
    intro c' hc'
    obtain ⟨hkey, hitem⟩ := ha c' hc'
    obtain ⟨values, values', hv, hv', halike⟩ := h.partials c' (List.mem_cons_of_mem c hc')
    have hkept (env : Environment) :
        (c.settle env result).value? c'.partials = env.value? c'.partials := by
      rw [Combine.value?_settle, ho, if_neg hitem, if_neg fun hp => hkey hp.2]
    exact ⟨values, values', (hkept env).trans hv, (hkept env').trans hv', halike⟩

theorem runCombines (h : Alike combines env env')
    (ha : combines.Pairwise fun c c' => c.partials ≠ c'.partials ∧ c.item ≠ c'.partials)
    (ho : ∀ c ∈ combines, c.output = c.item) :
    (runStages settings env (combines.map .combine)).result =
      (runStages settings' env' (combines.map .combine)).result := by
  induction combines generalizing env env' with
  | nil =>
    have he : env = env' := eq_of_values h.contains fun name => h.value? name List.not_mem_nil
    rw [he, List.map_nil, runStages, runStages]
  | cons c combines ih =>
    obtain ⟨hc, ha⟩ := List.pairwise_cons.mp ha
    obtain ⟨hoc, ho⟩ := List.forall_mem_cons.mp ho
    obtain ⟨values, values', hv, hv', halike⟩ := h.partials c List.mem_cons_self
    rw [List.map_cons, runStages_cons, runStages_cons]
    simp only [Stage.run, Run.result_ofExcept]
    rcases halike with ⟨rfl, rfl⟩ | ⟨result, hg, hg'⟩
    · rw [Combine.run_of_nil hv, Combine.run_of_nil hv', mapError_error, error_bind, error_bind]
    · rw [Combine.run_of_gives hv hg, Combine.run_of_gives hv' hg', mapError_ok, mapError_ok,
        ok_bind, ok_bind]
      exact ih (h.settle result hc hoc) ha ho

end Environment.Alike

/-- A step with plain names that never crashes. A reducer writes to the item it reads, and its
reduction is lawful. -/
structure Step.Steady (s : Step) : Prop where
  plain : s.NamesPlain
  never_crashes : ∀ operation, s.body = .task operation →
    ∀ values, (operation.act values).ending ≠ .crashed
  in_place : ∀ reduction, s.body = .fold reduction → s.inputs = s.outputs
  lawful : ∀ reduction, s.body = .fold reduction → reduction.Lawful

namespace Group.Formed

variable {steps : List Step} {g : Group} {combines : List Combine} {settings settings' : Settings}
  {env next next' : Environment}

theorem lawful (h : g.Formed steps combines) (hs : ∀ s ∈ steps, s.Steady) {c : Combine}
    (hc : c ∈ combines) : c.reduction.Lawful := by
  obtain ⟨s, hm, -, -, -, hb⟩ := h.called c hc
  exact (hs s hm).lawful c.reduction hb

theorem in_place (h : g.Formed steps combines) (hs : ∀ s ∈ steps, s.Steady) {c : Combine}
    (hc : c ∈ combines) : c.output = c.item := by
  obtain ⟨s, hm, -, hi, ho, hb⟩ := h.called c hc
  rw [← hi, ← ho, (hs s hm).in_place c.reduction hb]

theorem plain_items (h : g.Formed steps combines) (hs : ∀ s ∈ steps, s.Steady) :
    ∀ c ∈ combines, Plain c.item :=
  fun c hc => ((h.called c hc).plain fun s hm => (hs s hm).plain).1

theorem steady (h : g.Formed steps combines) (hs : ∀ s ∈ steps, s.Steady) :
    ∀ m ∈ g.members, m.Steady := by
  intro m hm
  constructor
  · cases m with
    | task name inputs outputs operation =>
      obtain ⟨s, hmem, -, -, -, hb⟩ := h.tasks name inputs outputs operation hm
      exact (hs s hmem).never_crashes operation hb
    | fold => trivial
  · rintro name item key reduction rfl
    obtain ⟨c, hc, he⟩ := h.exists_combine hm
    cases he
    exact h.lawful hs hc

/-- Two numbers of workers leave the same for what is gathered per item, and for each fold what
its combine makes the same of. -/
theorem alike (h : g.Formed steps combines) (hs : ∀ s ∈ steps, s.Steady)
    (hd : settings.debug = settings'.debug) (hr : (g.run settings env).result = .ok next)
    (hr' : (g.run settings' env).result = .ok next') :
    Environment.Alike combines next next' := by
  have hk := h.nodup_partials (h.plain_items hs)
  obtain ⟨rows, yields, hrows, hy, rfl⟩ := run_eq_ok h.nodup hr
  obtain ⟨rows', yields', hrows', hy', rfl⟩ := run_eq_ok h.nodup hr'
  cases hrows.symm.trans hrows'
  have hrowsOf : settings'.rowsOf rows = settings.rowsOf rows := by
    rw [Settings.rowsOf, Settings.rowsOf, hd]
  have hflat := flatten_shares (settings.rowsOf rows) settings.workerCount
  have hflat' := flatten_shares (settings'.rowsOf rows) settings'.workerCount
  rw [hrowsOf] at hflat'
  rw [hrowsOf] at hy'
  constructor
  case contains =>
    intro name
    rw [Bool.eq_iff_iff, Environment.contains_join, Environment.contains_join]
  case value? =>
    intro name hn
    by_cases hg : name ∈ g.gathered
    · have hp : name ∉ g.partials := fun hm => hn (h.key_of_partials hm)
      have hj := joined_perRow hy hg hp
      have hj' := joined_perRow hy' hg hp
      rw [hflat] at hj
      rw [hflat', hj] at hj'
      rw [Environment.value?_join_of_mem h.nodup hg, Environment.value?_join_of_mem h.nodup hg,
        List.map_injective_iff.mpr (fun _ _ => Option.some.inj) hj']
    · rw [Environment.value?_join_of_notMem hg, Environment.value?_join_of_notMem hg]
  case partials =>
    intro c hc
    obtain ⟨place, hm⟩ := h.exists_fold hc
    have hg := h.key_gathered hm
    refine ⟨joined yields c.partials, joined yields' c.partials,
      Environment.value?_join_of_mem h.nodup hg yields,
      Environment.value?_join_of_mem h.nodup hg yields', ?_⟩
    obtain ⟨parts, hparts, hvalues⟩ := exists_valueParts (joined_fold hy hk hm)
    obtain ⟨parts', hparts', hvalues'⟩ := exists_valueParts (joined_fold hy' hk hm)
    rw [List.flatten_filter_not_isEmpty, hflat] at hvalues
    rw [List.flatten_filter_not_isEmpty, hflat', hvalues] at hvalues'
    apply (h.lawful hs hc).alike hparts hparts'
    exact List.map_injective_iff.mpr (fun _ _ => Option.some.inj) hvalues'

end Group.Formed

theorem Block.Formed.run_eq {steps : List Step} {b : Block} (h : b.Formed steps)
    (hs : ∀ s ∈ steps, s.Steady) {settings settings' : Settings}
    (hd : settings.debug = settings'.debug) (env : Environment) :
    (runStages settings env b.stages).result = (runStages settings' env b.stages).result := by
  cases b with
  | serial s =>
    rw [Block.stages, runStages_cons, runStages_cons, Stage.run, Stage.run]
    simp only [runStages]
  | group g combines =>
    have hg : g.Formed steps combines := h
    have hfault : fault? (g.run settings env).result = fault? (g.run settings' env).result := by
      rw [Group.run_fault? (hg.steady hs) hg.nodup, Group.run_fault? (hg.steady hs) hg.nodup]
      simp only [Settings.rowsOf, hd]
    rw [Block.stages, runStages_cons, runStages_cons, Stage.run, Stage.run]
    cases hr : (g.run settings env).result with
    | error e =>
      rw [hr] at hfault
      rw [fault?_eq_some.mp hfault.symm, mapError_error, error_bind, error_bind]
    | ok next =>
      rw [hr] at hfault
      obtain ⟨next', hr'⟩ := fault?_eq_none.mp hfault.symm
      rw [hr', mapError_ok, mapError_ok, ok_bind, ok_bind]
      exact (hg.alike hs hd hr hr').runCombines (hg.combines_apart (hg.plain_items hs))
        fun c hc => hg.in_place hs hc

theorem FormedStages.run_eq {steps : List Step} {stages : List Stage}
    (h : FormedStages steps stages) (hs : ∀ s ∈ steps, s.Steady) {settings settings' : Settings}
    (hd : settings.debug = settings'.debug) (env : Environment) :
    (runStages settings env stages).result = (runStages settings' env stages).result := by
  obtain ⟨blocks, rfl, hf⟩ := h
  induction blocks generalizing env with
  | nil => rfl
  | cons b blocks ih =>
    obtain ⟨hb, hf⟩ := List.forall_mem_cons.mp hf
    rw [List.flatMap_cons, runStages_append, runStages_append, hb.run_eq hs hd env]
    cases (runStages settings' env b.stages).result with
    | error e => rw [error_bind, error_bind]
    | ok next =>
      rw [ok_bind, ok_bind]
      exact ih next hf

/-- A flow of steady steps comes to the same environment, or the same fault, with any
number of workers. -/
theorem Flow.run_result_eq {r : Repertoire} {lines : List String} {f : Flow}
    {settings settings' : Settings} (hf : Flow.ofLines r lines = .ok f)
    (hs : ∀ s ∈ r.steps lines, s.Steady) (hd : settings.debug = settings'.debug) :
    (f.run settings).result = (f.run settings').result := by
  rw [Flow.run, Flow.run, Run.result_bind, Run.result_bind,
    (Flow.formed_of_lines hf).run_eq hs hd f.declared]

def Value.parts (v : Value) : List Value :=
  v.list?.getD [v]

/-- Joins lists in the order of their items. -/
def Reduction.joining : Reduction where
  combine item held := .ok (.list (held.parts ++ item.parts))
  finish v := .ok (.list v.parts)

theorem Reduction.joining_lawful : joining.Lawful :=
  ⟨fun item held => .list (held.parts ++ item.parts), fun v => .list v.parts,
    fun _ _ => rfl, fun _ => rfl,
    fun a b c => congrArg Value.list (List.append_assoc c.parts b.parts a.parts), fun _ _ => rfl⟩

def joinType : StepType where
  schema := (Schema.bare "join" .reducer "Join lists").inPlace "item"
  build _ := .ok (.fold .joining)

/-- A reducer whose operands may not change places gives the same on two and on three workers. -/
theorem Flow.run_result_eq_of_join : ∃ f,
    Flow.ofLines (Repertoire.empty.addAll [Standard.lst, joinType]).repertoire
      ["lst 5", "reduce_join"] = .ok f ∧
    (∀ s ∈ (Repertoire.empty.addAll [Standard.lst, joinType]).repertoire.steps
      ["lst 5", "reduce_join"], s.Steady) ∧
    (⟨2, false, 0⟩ : Settings).debug = (⟨3, false, 0⟩ : Settings).debug ∧
    (f.run ⟨2, false, 0⟩).result = (f.run ⟨3, false, 0⟩).result ∧
    (f.run ⟨2, false, 0⟩).result.toOption.bind (·.value? "item") =
      some (.list [.int 0, .int 1, .int 2, .int 3, .int 4]) := by
  obtain ⟨f, hf, hv⟩ : ∃ f,
      Flow.ofLines (Repertoire.empty.addAll [Standard.lst, joinType]).repertoire
        ["lst 5", "reduce_join"] = .ok f ∧
      (f.run ⟨2, false, 0⟩).result.toOption.bind (·.value? "item") =
        some (.list [.int 0, .int 1, .int 2, .int 3, .int 4]) :=
    ⟨_, rfl, rfl⟩
  have hs : ∀ s ∈ (Repertoire.empty.addAll [Standard.lst, joinType]).repertoire.steps
      ["lst 5", "reduce_join"], s.Steady := by
    have he : (Repertoire.empty.addAll [Standard.lst, joinType]).repertoire.steps
        ["lst 5", "reduce_join"] = [⟨"lst", .serial, [], ["item"],
          Standard.giving (.list [.int 0, .int 1, .int 2, .int 3, .int 4])⟩,
        ⟨"reduce_join", .reducer, ["item"], ["item"], .fold .joining⟩] := rfl
    rw [he]
    refine List.forall_mem_cons.mpr ⟨⟨by decide, ?_, nofun, nofun⟩,
      List.forall_mem_singleton.mpr ⟨by decide, nofun, fun _ _ => rfl, ?_⟩⟩
    · intro operation ho values
      rw [← Body.task.inj ho]
      exact nofun
    · intro reduction hr
      rw [← Body.fold.inj hr]
      exact Reduction.joining_lawful
  exact ⟨f, hf, hs, rfl, Flow.run_result_eq hf hs rfl, hv⟩

end DirectiveFlow
