import Catena.Framework.Turns
import Catena.Grpc.Server

/-!
# The answers of concurrent calls

The sections of all calls have one order, in which the world goes from one to the next. A call that
answers once takes one section, whose action is that of its request, and its answer is read off the
world that the sections before it have left; or it answers without a section because a check before
it has failed. So concurrent calls are served as if one came after the other.
-/

namespace Catena.Grpc

open Store Rpc Framework Framework.Completion

variable {i : Controller}

/-- The answer of a task whose section has found a world. -/
def Task.Gives (task : Task i) (seen : List (Action × World)) (r : grpc.Answer i) : Prop :=
  match task with
  | .respond answer => seen = [] ∧ r = answer
  | .inSection a answer => ∃ w, seen = [(a, w)] ∧ answer w = some r

/-- Where a call with a task stands between two turns. A call that is in `kFinish` without an
answer has been refused. -/
def Task.Stands (task : Task i) (seen : List (Action × World)) (posted : List (Op grpc i)) :
    CallStatus → Prop
  | .kCreate => seen = [] ∧ posted = []
  | .kProcess => seen = [] ∧ posted = [.request]
  | .kFinish => seen = [] ∧ posted = [.request] ∨
      ∃ r, posted = trace [] (some r) ∧ task.Gives seen r
  | .kRead | .kWrite | .kPostWrite => False

variable (cfg : Config)

/-- The calls of the controllers that answer once do what their tasks say. -/
def TaskDone : Relation grpc
  | .getPopulatedSlots, _, x, seen, posted => (GetPopulatedSlots.task cfg).Stands seen posted x
  | .getValue, q, x, seen, posted => (GetValue.task cfg q).Stands seen posted x
  | .setValue, q, x, seen, posted => (SetValue.task cfg q).Stands seen posted x
  | .multiSetValue, q, x, seen, posted => (MultiSetValue.task cfg q).Stands seen posted x
  | .getParam, q, x, seen, posted => (GetParam.task cfg q).Stands seen posted x
  | .addLanguage, q, x, seen, posted => (AddLanguage.task cfg q).Stands seen posted x
  | .listLanguages, q, x, seen, posted => (ListLanguages.task cfg q).Stands seen posted x
  | .languagePackRequest, q, x, seen, posted =>
      (LanguagePackRequest.task cfg q).Stands seen posted x
  | .deviceRequest, _, _, _, _ | .externalObjectRequest, _, _, _, _ | .executeCommand, _, _, _, _
  | .updateSubscriptions, _, _, _, _ => True

theorem CallStatus.eq_kProcess {x : CallStatus} (h : x.phase = .waiting) : x = .kProcess := by
  cases x with
  | kProcess => rfl
  | _ => cases h

theorem Task.Stands.eq_kFinish {task : Task i} {seen : List (Action × World)}
    {posted : List (Op grpc i)} {x : CallStatus} (h : task.Stands seen posted x)
    (hphase : x.phase = .serving ∨ x.phase = .finishing) : x = .kFinish := by
  cases x with
  | kFinish => rfl
  | kCreate => rcases hphase with hphase | hphase <;> cases hphase
  | kProcess => rcases hphase with hphase | hphase <;> cases hphase
  | _ => exact h.elim

theorem Task.keeps_code {enter : CallStatus → grpc.State i} {task : Task i}
    {J : grpc.State i → List (Action × World) → List (Op grpc i) → Prop}
    (hJ : ∀ seen r, task.Gives seen r → J (enter .kFinish) seen (trace [] (some r)))
    (x : grpc.State i) :
    (task.code enter).Keeps J x [] [.request] := by
  cases task with
  | respond r => exact hJ [] r ⟨rfl, rfl⟩
  | inSection a answer =>
    intro w
    change ((answer w).elim .abort (finish enter)).Keeps J x [(a, w)] [.request]
    cases hanswer : answer w with
    | none => exact trivial
    | some r => exact hJ [(a, w)] r ⟨w, rfl, hanswer⟩

/-- What the eight controllers have in common: their state is a status, and their turns are those
of a task. -/
theorem keeps_unary {enter : CallStatus → grpc.State i} (illegal : grpc.Answer i)
    (task : i.Request → Task i) {J : Relation grpc} (hfresh : fresh i = enter .kCreate)
    (henter : ∀ y, ∃ x, enter x = y) (hphase : ∀ x, phase i (enter x) = x.phase)
    (hproceed : ∀ q x, (server cfg).proceed i q (enter x) = unary enter illegal (task q) x)
    (hJ : ∀ q x seen posted, J i q (enter x) seen posted ↔ (task q).Stands seen posted x) :
    Keeps (server cfg) phase J i := by
  constructor
  · have hcreate : (server cfg).fresh i = enter .kCreate := hfresh
    rw [hcreate, hproceed]
    exact (hJ _ .kProcess [] [.request]).mpr ⟨rfl, rfl⟩
  · intro q q' y seen ok hwaiting h
    obtain ⟨x, rfl⟩ := henter y
    obtain rfl := CallStatus.eq_kProcess ((hphase x).symm.trans hwaiting)
    obtain ⟨rfl, _⟩ := (hJ _ _ _ _).mp h
    rw [hproceed]
    cases ok with
    | false => exact (hJ _ .kFinish [] [.request]).mpr (Or.inl ⟨rfl, rfl⟩)
    | true =>
      exact Task.keeps_code (fun seen r hr => (hJ _ _ _ _).mpr (Or.inr ⟨r, rfl, hr⟩)) _
  · intro q y seen posted ok hlater h
    obtain ⟨x, rfl⟩ := henter y
    rw [hphase] at hlater
    have hstands := (hJ _ _ _ _).mp h
    obtain rfl := hstands.eq_kFinish hlater
    rw [hproceed]
    cases ok <;> exact h

theorem keeps_taskDone (i : Controller) : Keeps (server cfg) phase (TaskDone cfg) i := by
  have hid (x : CallStatus) : ∃ y, id y = x := ⟨x, rfl⟩
  cases i with
  | getPopulatedSlots =>
    exact keeps_unary (i := .getPopulatedSlots) cfg (.error illegalState)
      (fun _ => GetPopulatedSlots.task cfg) rfl hid (fun _ => rfl) (fun _ _ => rfl)
      fun _ _ _ _ => Iff.rfl
  | getValue =>
    exact keeps_unary (i := .getValue) cfg (.error illegalState) (GetValue.task cfg)
      rfl hid (fun _ => rfl) (fun _ _ => rfl) fun _ _ _ _ => Iff.rfl
  | setValue =>
    exact keeps_unary (i := .setValue) cfg (.error illegalState) (SetValue.task cfg)
      rfl hid (fun _ => rfl) (fun _ _ => rfl) fun _ _ _ _ => Iff.rfl
  | multiSetValue =>
    exact keeps_unary (i := .multiSetValue) cfg (.error illegalState) (MultiSetValue.task cfg)
      rfl hid (fun _ => rfl) (fun _ _ => rfl) fun _ _ _ _ => Iff.rfl
  | getParam =>
    exact keeps_unary (i := .getParam) cfg (.error illegalState) (GetParam.task cfg)
      rfl hid (fun _ => rfl) (fun _ _ => rfl) fun _ _ _ _ => Iff.rfl
  | addLanguage =>
    exact keeps_unary (i := .addLanguage) cfg (.error illegalState) (AddLanguage.task cfg)
      rfl hid (fun _ => rfl) (fun _ _ => rfl) fun _ _ _ _ => Iff.rfl
  | listLanguages =>
    exact keeps_unary (i := .listLanguages) cfg (.error illegalState) (ListLanguages.task cfg)
      rfl hid (fun _ => rfl) (fun _ _ => rfl) fun _ _ _ _ => Iff.rfl
  | languagePackRequest =>
    exact keeps_unary (i := .languagePackRequest) cfg (.error illegalState)
      (LanguagePackRequest.task cfg) rfl hid (fun _ => rfl) (fun _ _ => rfl) fun _ _ _ _ => Iff.rfl
  | _ => exact keeps_of_forall fun _ _ _ _ => trivial

/-- The sections of all calls have an order, in which each of these calls takes at most one, and
answers what its task says about the world that it finds there. -/
theorem serializable (world : World) {s : Service grpc}
    (h : (server cfg).Reaches controllers world s) :
    s.world = (server cfg).after s.log world ∧
    ∀ j c, s.calls[j]? = some c → c.threads = [] →
      TaskDone cfg c.kind c.req c.state ((server cfg).found j s.log world) c.posted := by
  refine ⟨(recorded_of_reaches h).current, fun j c hc hidle => ?_⟩
  exact relation_of_found (disciplined cfg) (keeps_taskDone cfg) h hc hidle

theorem serializable_afterCalls :
    afterCalls.world = (server panelConfig).after afterCalls.log panelWorld ∧
    ∀ j c, afterCalls.calls[j]? = some c → c.threads = [] →
      TaskDone panelConfig c.kind c.req c.state
        ((server panelConfig).found j afterCalls.log panelWorld) c.posted :=
  serializable panelConfig panelWorld reaches_afterCalls

end Catena.Grpc
