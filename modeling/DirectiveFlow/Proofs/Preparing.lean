import DirectiveFlow.Proofs.Outcome

namespace DirectiveFlow

/-- What is called before the first stage, under the names of the steps. -/
def Flow.setups (f : Flow) : List (String × Reply Unit) :=
  (f.stages.flatMap Stage.operations).map fun (name, operation) => (name, operation.prepare)

/-- No call before the first stage fails. -/
def Flow.Prepares (f : Flow) : Prop :=
  ∀ setup ∈ f.setups, setup.2.ending = .done ()

section PrepareAll

variable {name : String} {operation : Operation} {rest : List (String × Operation)}

theorem prepareAll_cons_of_done (h : operation.prepare.ending = .done ()) :
    (prepareAll ((name, operation) :: rest)).result = (prepareAll rest).result := by
  have hr : (Run.ofReply name operation.prepare).result = .ok () := by
    simp only [Run.ofReply, h]
  rw [prepareAll, Run.result_bind, Run.result_mapError, hr]
  rfl

theorem prepareAll_cons_of_not_done (name : String) (rest : List (String × Operation))
    (h : operation.prepare.ending ≠ .done ()) :
    ∃ fault, (prepareAll ((name, operation) :: rest)).result = .error fault := by
  rw [prepareAll, Run.result_bind, Run.result_mapError, Run.ofReply]
  cases he : operation.prepare.ending with
  | done => exact (h he).elim
  | failed cause => exact ⟨_, rfl⟩
  | crashed => exact ⟨_, rfl⟩

theorem prepareAll_eq_ok {operations : List (String × Operation)} :
    (prepareAll operations).result = .ok () ↔
      ∀ operation ∈ operations, operation.2.prepare.ending = .done () := by
  induction operations with
  | nil => exact ⟨fun _ => nofun, fun _ => rfl⟩
  | cons first rest ih =>
    obtain ⟨name, operation⟩ := first
    by_cases h : operation.prepare.ending = .done ()
    · rw [prepareAll_cons_of_done h, ih, List.forall_mem_cons, and_iff_right h]
    · obtain ⟨fault, hf⟩ := prepareAll_cons_of_not_done name rest h
      rw [hf, List.forall_mem_cons]
      exact ⟨fun he => (nomatch he), fun ha => absurd ha.1 h⟩

theorem prepareAll_congr {operations operations' : List (String × Operation)}
    (h : operations.map (fun (name, operation) => (name, operation.prepare)) =
      operations'.map fun (name, operation) => (name, operation.prepare)) :
    prepareAll operations = prepareAll operations' := by
  induction operations generalizing operations' with
  | nil =>
    rw [List.map_nil, eq_comm, List.map_eq_nil_iff] at h
    rw [h]
  | cons first rest ih =>
    obtain ⟨first', rest', rfl, hf, hr⟩ := List.map_eq_cons_iff.mp h.symm
    obtain ⟨hname, hprepare⟩ := Prod.mk.inj hf
    rw [prepareAll, prepareAll, hname, hprepare, ih hr.symm]

end PrepareAll

namespace Flow

variable {f f' : Flow}

theorem prepare_eq_ok : f.prepare.result = .ok () ↔ f.Prepares := by
  rw [prepare, prepareAll_eq_ok, Prepares, setups, List.forall_mem_map]

theorem prepare_congr (h : f'.setups = f.setups) : f'.prepare = f.prepare :=
  prepareAll_congr h

end Flow

end DirectiveFlow
