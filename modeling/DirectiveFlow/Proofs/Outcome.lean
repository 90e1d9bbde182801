import Mathlib.Data.List.Forall2
import DirectiveFlow.Run.Flow

namespace DirectiveFlow

variable {ε ε' α β : Type}

@[simp] theorem ok_bind (a : α) (f : α → Except ε β) : (.ok a >>= f) = f a := rfl

@[simp] theorem error_bind (e : ε) (f : α → Except ε β) : (.error e >>= f) = .error e := rfl

@[simp] theorem map_ok (f : α → β) (a : α) : (.ok a : Except ε α).map f = .ok (f a) := rfl

@[simp] theorem mapError_ok (f : ε → ε') (a : α) : (.ok a : Except ε α).mapError f = .ok a := rfl

@[simp] theorem mapError_error (f : ε → ε') (e : ε) :
    (.error e : Except ε α).mapError f = .error (f e) := rfl

theorem map_eq_ok {x : Except ε α} {f : α → β} {b : β} (h : x.map f = .ok b) :
    ∃ a, x = .ok a ∧ f a = b := by
  cases x with
  | ok a => cases h; exact ⟨a, rfl, rfl⟩
  | error e => cases h

theorem map_eq_error {x : Except ε α} {f : α → β} {e : ε} (h : x.map f = .error e) :
    x = .error e := by
  cases x with
  | ok a => cases h
  | error e' => cases h; rfl

theorem bind_eq_ok {x : Except ε α} {f : α → Except ε β} {b : β} :
    (x >>= f) = .ok b ↔ ∃ a, x = .ok a ∧ f a = .ok b := by
  cases x with
  | ok a => exact ⟨fun h => ⟨a, rfl, h⟩, fun ⟨_, ha, h⟩ => by cases ha; exact h⟩
  | error e => exact ⟨fun h => (nomatch h), fun ⟨_, ha, _⟩ => (nomatch ha)⟩

theorem mapM_eq_ok {f : α → Except ε β} {as : List α} {bs : List β} :
    as.mapM f = .ok bs ↔ List.Forall₂ (fun a b => f a = .ok b) as bs := by
  induction as generalizing bs with
  | nil =>
    rw [List.mapM_nil, List.forall₂_nil_left_iff]
    exact ⟨fun h => by cases h; rfl, fun h => h ▸ rfl⟩
  | cons a as ih =>
    rw [List.mapM_cons, List.forall₂_cons_left_iff]
    simp only [bind_eq_ok, ih]
    constructor
    · rintro ⟨b, hb, bs', hbs, he⟩
      cases he
      exact ⟨b, bs', hb, hbs, rfl⟩
    · rintro ⟨b, bs', hb, hbs, rfl⟩
      exact ⟨b, hb, bs', hbs, rfl⟩

theorem exists_mapM_eq_ok {f : α → Except ε β} {as : List α} :
    (∃ bs, as.mapM f = .ok bs) ↔ ∀ a ∈ as, ∃ b, f a = .ok b := by
  simp only [mapM_eq_ok]
  induction as with
  | nil => exact ⟨fun _ => nofun, fun _ => ⟨[], .nil⟩⟩
  | cons a as ih =>
    rw [List.forall_mem_cons, ← ih]
    constructor
    · rintro ⟨bs, h⟩
      obtain ⟨b, bs, hb, hbs, -⟩ := List.forall₂_cons_left_iff.mp h
      exact ⟨⟨b, hb⟩, bs, hbs⟩
    · rintro ⟨⟨b, hb⟩, bs, hbs⟩
      exact ⟨b :: bs, .cons hb hbs⟩

theorem mapM_congr {f f' : α → Except ε β} {as : List α} (h : ∀ a ∈ as, f a = f' a) :
    as.mapM f = as.mapM f' := by
  induction as with
  | nil => rfl
  | cons a as ih =>
    obtain ⟨ha, h⟩ := List.forall_mem_cons.mp h
    rw [List.mapM_cons, List.mapM_cons, ha, ih h]

/-- The fault of a result that is no value. -/
def fault? : Except ε α → Option ε
  | .ok _ => none
  | .error e => some e

@[simp] theorem fault?_ok (a : α) : fault? (.ok a : Except ε α) = none := rfl

@[simp] theorem fault?_error (e : ε) : fault? (.error e : Except ε α) = some e := rfl

theorem fault?_eq_none {x : Except ε α} : fault? x = none ↔ ∃ a, x = .ok a := by
  cases x <;> simp

theorem fault?_eq_some {x : Except ε α} {e : ε} : fault? x = some e ↔ x = .error e := by
  cases x <;> simp

theorem fault?_bind_of_total {x : Except ε α} {f : α → Except ε β}
    (hf : ∀ a, fault? (f a) = none) : fault? (x >>= f) = fault? x := by
  cases x with
  | ok a => exact hf a
  | error e => rfl

theorem fault?_mapM_append (f : α → Except ε β) (as bs : List α) :
    fault? ((as ++ bs).mapM f) = (fault? (as.mapM f)).or (fault? (bs.mapM f)) := by
  rw [List.mapM_append]
  cases ha : as.mapM f with
  | error e => rfl
  | ok as' =>
    change fault? (bs.mapM f >>= fun bs' => pure (as' ++ bs')) = fault? (bs.mapM f)
    exact fault?_bind_of_total fun _ => rfl

/-- What holds of a result: `post` of a value and `fault` of a fault. -/
def Ends (fault : ε → Prop) (post : α → Prop) : Except ε α → Prop
  | .ok a => post a
  | .error e => fault e

namespace Ends

variable {fault : ε → Prop} {post : α → Prop} {next : β → Prop}

theorem mono {x : Except ε α} {fault' : ε → Prop} (h : Ends fault post x)
    (hf : ∀ e, fault e → fault' e) : Ends fault' post x := by
  cases x with
  | ok a => exact h
  | error e => exact hf e h

theorem bind {x : Except ε α} {f : α → Except ε β} (h : Ends fault post x)
    (hf : ∀ a, post a → Ends fault next (f a)) : Ends fault next (x >>= f) := by
  cases x with
  | ok a => exact hf a h
  | error e => exact h

theorem mapM {f : α → Except ε β} {as : List α}
    (h : ∀ a ∈ as, Ends fault (fun _ => True) (f a)) :
    Ends fault (fun bs => bs.length = as.length) (as.mapM f) := by
  induction as with
  | nil => rfl
  | cons a as ih =>
    rw [List.mapM_cons]
    refine (h a List.mem_cons_self).bind fun b _ => ?_
    refine (ih fun a' ha' => h a' (List.mem_cons_of_mem a ha')).bind fun bs hbs => ?_
    exact congrArg Nat.succ hbs

end Ends

namespace Run

@[simp] theorem result_ofExcept (x : Except ε α) : (ofExcept x).result = x := rfl

@[simp] theorem result_report (event : Event) : (report event : Run ε Unit).result = .ok () := rfl

@[simp] theorem result_unobserved (x : Run ε α) : x.unobserved.result = x.result := rfl

@[simp] theorem result_mapError (f : ε → ε') (x : Run ε α) :
    (x.mapError f).result = x.result.mapError f := rfl

/-- What a run gives comes from what its parts give; prints and reports do not matter. -/
@[simp] theorem result_bind (x : Run ε α) (f : α → Run ε β) :
    (x >>= f).result = x.result >>= fun a => (f a).result := by
  change (Run.bind x f).result = _
  unfold Run.bind
  cases x.result with
  | ok a => rfl
  | error e => rfl

theorem bind_eq_ok {x : Run ε α} {f : α → Run ε β} {b : β} :
    (x >>= f).result = .ok b ↔ ∃ a, x.result = .ok a ∧ (f a).result = .ok b := by
  rw [result_bind, DirectiveFlow.bind_eq_ok]

theorem bind_of_ok {x : Run ε α} {f : α → Run ε β} {a : α} (h : x.result = .ok a) :
    (x >>= f) = ⟨x.printed ++ (f a).printed, x.events ++ (f a).events, (f a).result⟩ := by
  change Run.bind x f = _
  rw [Run.bind, h]

theorem bind_of_error {x : Run ε α} {f : α → Run ε β} {fault : ε} (h : x.result = .error fault) :
    (x >>= f) = ⟨x.printed, x.events, .error fault⟩ := by
  change Run.bind x f = _
  rw [Run.bind, h]

theorem bind_assoc {γ : Type} (x : Run ε α) (f : α → Run ε β) (g : β → Run ε γ) :
    (x >>= f >>= g) = (x >>= fun a => f a >>= g) := by
  cases hx : x.result with
  | error fault => rw [bind_of_error hx, bind_of_error hx, bind_of_error rfl]
  | ok a =>
    rw [bind_of_ok hx, bind_of_ok hx]
    cases hf : (f a).result with
    | error fault => rw [bind_of_error rfl, bind_of_error hf]
    | ok b =>
      rw [bind_of_ok rfl, bind_of_ok hf]
      simp only [String.append_assoc, List.append_assoc]

theorem ofExcept_ok_bind (a : α) (f : α → Run ε β) : (ofExcept (.ok a) >>= f) = f a := by
  rw [bind_of_ok rfl]
  simp only [ofExcept, String.empty_append, List.nil_append]

end Run

theorem mapError_eq_ok {f : ε → ε'} {x : Except ε α} {a : α} :
    x.mapError f = .ok a ↔ x = .ok a := by
  cases x with
  | ok b => exact ⟨fun h => by cases h; rfl, fun h => by cases h; rfl⟩
  | error e => exact ⟨fun h => (nomatch h), fun h => (nomatch h)⟩

end DirectiveFlow
