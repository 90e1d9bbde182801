import DirectiveFlow.Proofs.Drafting
import DirectiveFlow.Proofs.Joining
import DirectiveFlow.Standard

namespace DirectiveFlow

theorem Settings.workerCount_of_workers {settings : Settings} (hd : settings.debug = false)
    (hw : 1 ≤ settings.workers) : settings.workerCount = settings.workers := by
  simp only [workerCount, chosenWorkers?, hd, Bool.false_eq_true, if_false]
  rw [if_neg (by omega)]
  rfl

theorem Group.Formed.value?_partials {steps : List Step} {g : Group} {combines : List Combine}
    {settings : Settings} {env env' : Environment} (h : g.Formed steps combines)
    (hk : g.partials.Nodup) (hr : (g.run settings env).result = .ok env') {place : Nat}
    {name item key : String} {reduction : Reduction}
    (hm : g.members[place]? = some (.fold name item key reduction)) :
    ∃ rows own, env.rowsFor g.name g.requests = .ok rows ∧
      List.Forall₂ (g.FoldsTo place item reduction)
        ((shares (settings.rowsOf rows) settings.workerCount).filter fun share => !share.isEmpty)
        own ∧
      env'.value? key = some (.list own) := by
  obtain ⟨rows, yields, hrows, hy, rfl⟩ := run_eq_ok h.nodup hr
  exact ⟨rows, joined yields key, hrows, joined_fold hy hk hm,
    Environment.value?_join_of_mem h.nodup (h.key_gathered hm) yields⟩

end DirectiveFlow
