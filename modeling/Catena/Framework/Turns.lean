import Catena.Framework.Lifecycle
import Catena.Framework.Log

/-!
# What the turns of a call keep

A relation between the request of a call, its state, the worlds its sections have found and what
it has posted holds between two turns if every turn keeps it. The sections of all calls have an
order: the world is what their actions make of it one after the other, and each section has found
what the ones before it left.
-/

namespace Catena.Framework.Completion

variable {I : Interface}

/-- Code that leads to the relation, from a state, what has been seen and what has been posted. -/
def Code.Keeps {i : I.Kind} (J : I.State i → List (I.Action × I.World) → List (Op I i) → Prop) :
    I.State i → List (I.Action × I.World) → List (Op I i) → Code I i → Prop
  | x, ws, ops, .done => J x ws ops
  | _, ws, ops, .set y next => next.Keeps J y ws ops
  | x, ws, ops, .spawn next => next.Keeps J x ws ops
  | x, ws, ops, .locked a next => ∀ w, (next w).Keeps J x (ws ++ [(a, w)]) ops
  | x, ws, ops, .post op next => next.Keeps J x ws (ops ++ [op])
  | x, ws, ops, .delete next => next.Keeps J x ws ops
  | _, _, _, .abort => True

theorem Code.keeps_of_forall {i : I.Kind}
    {J : I.State i → List (I.Action × I.World) → List (Op I i) → Prop}
    (hJ : ∀ x ws ops, J x ws ops) (code : Code I i) (x : I.State i)
    (ws : List (I.Action × I.World)) (ops : List (Op I i)) : code.Keeps J x ws ops := by
  induction code generalizing x ws ops with
  | done => exact hJ x ws ops
  | set y next ih => exact ih y ws ops
  | spawn next ih => exact ih x ws ops
  | locked a next ih => exact fun w => ih w x _ ops
  | post op next ih => exact ih x ws _
  | delete next ih => exact ih x ws ops
  | abort => exact trivial

/-- A relation for every kind of call. -/
abbrev Relation (I : Interface) : Type :=
  (i : I.Kind) → I.Request i → I.State i → List (I.Action × I.World) → List (Op I i) → Prop

/-- The turns of a kind of call keep a relation. -/
structure Keeps (srv : Server I) (phase : (i : I.Kind) → I.State i → Phase) (J : Relation I)
    (i : I.Kind) : Prop where
  creates : (srv.proceed i (srv.blank i) (srv.fresh i) true).Keeps (J i (srv.blank i))
    (srv.fresh i) [] []
  accepts : ∀ q q' x ws ok, phase i x = .waiting → J i q x ws [.request] →
    (srv.proceed i q' x ok).Keeps (J i q') x ws [.request]
  continues : ∀ q x ws ops ok, phase i x = .serving ∨ phase i x = .finishing →
    J i q x ws ops → (srv.proceed i q x ok).Keeps (J i q) x ws ops

theorem keeps_of_forall {srv : Server I} {phase : (i : I.Kind) → I.State i → Phase}
    {J : Relation I} {i : I.Kind} (hJ : ∀ q x ws ops, J i q x ws ops) : Keeps srv phase J i where
  creates := Code.keeps_of_forall (hJ _) _ _ _ _
  accepts _ q' _ _ _ _ _ := Code.keeps_of_forall (hJ q') _ _ _ _
  continues q _ _ _ _ _ _ := Code.keeps_of_forall (hJ q) _ _ _ _

/-- The relation holds between two turns, and the turn of a thread leads to it. -/
structure Call.Related (J : Relation I) (c : Call I) : Prop where
  idle : c.threads = [] → J c.kind c.req c.state c.seen c.posted
  running : ∀ code, c.threads = [code] →
    code.Keeps (J c.kind c.req) c.state c.seen c.posted

variable {srv : Server I} {phase : (i : I.Kind) → I.State i → Phase} {J : Relation I}

theorem related_of_running {c : Call I} {code : Code I c.kind} (hthreads : c.threads = [code])
    (h : code.Keeps (J c.kind c.req) c.state c.seen c.posted) : c.Related J := by
  constructor
  · intro hidle
    rw [hthreads] at hidle
    cases hidle
  · intro code' hthreads'
    obtain rfl := (List.cons.inj (hthreads.symm.trans hthreads')).1
    exact h

theorem related_of_resume {c : Call I} {code next : Code I c.kind}
    (hthreads : c.threads = Code.resume [code] 0 next)
    (h : next.Keeps (J c.kind c.req) c.state c.seen c.posted) : c.Related J := by
  by_cases hdone : next = .done
  · subst hdone
    constructor
    · exact fun _ => h
    · intro code' hthreads'
      rw [hthreads] at hthreads'
      cases hthreads'
  · exact related_of_running (hthreads.trans (resume_of_ne_done hdone)) h

theorem Call.Related.run {c : Call I} (hrel : c.Related J) {code : Code I c.kind}
    (hthreads : c.threads = [code]) (w : I.World) : (c.run 0 w code).Related J := by
  have hkeeps := hrel.running code hthreads
  have hresume (next : Code I c.kind) :
      Code.resume c.threads 0 next = Code.resume [code] 0 next := by rw [hthreads]
  cases code with
  | done => exact related_of_resume (hresume .done) hkeeps
  | set y next => exact related_of_resume (hresume next) hkeeps
  | spawn next => exact related_of_resume (hresume next) hkeeps
  | locked a next => exact related_of_resume (hresume (next w)) (hkeeps w)
  | post op next => exact related_of_resume (hresume next) hkeeps
  | delete next => exact related_of_resume (hresume next) hkeeps
  | abort => exact hrel

/-- The completion of an operation of an object. -/
theorem Call.Related.complete (hJ : ∀ i, Keeps srv phase J i) {c : Call I} (hrel : c.Related J)
    (hsound : Sound phase c) {k : Nat} {op : Op I c.kind} (hop : c.pending[k]? = some op)
    (ok : Bool) (req : I.Request c.kind) : (srv.complete c k ok req op).Related J := by
  cases hsound with
  | running goal spawns code alive pending threads follows history =>
    rw [pending] at hop
    cases hop
  | awaiting op' alive pending threads waits =>
    rw [pending] at hop
    obtain ⟨rfl, rfl⟩ := getElem?_singleton_eq hop
    have hidle := hrel.idle threads
    have hthreads (code : Code I c.kind) : c.threads ++ [code] = [code] := by rw [threads]; rfl
    cases op with
    | request =>
      obtain ⟨hphase, hposted, _⟩ := waits
      refine related_of_running (hthreads _) ?_
      have hposted' : c.posted = [.request] := hposted
      rw [hposted'] at hidle
      have hkeeps := (hJ _).accepts _ (if ok then req else c.req) _ _ ok hphase hidle
      exact hposted' ▸ hkeeps
    | write m =>
      have hkeeps := (hJ _).continues _ _ _ _ ok (Or.inl waits.1) hidle
      exact related_of_running (hthreads _) hkeeps
    | finish r =>
      have hkeeps := (hJ _).continues _ _ _ _ ok (Or.inr waits.1) hidle
      exact related_of_running (hthreads _) hkeeps
  | deleted alive pending threads history =>
    rw [pending] at hop
    cases hop

variable {kinds : List I.Kind} {world : I.World} {s : Service I}

/-- A relation that the turns keep holds of every object, in every state that is reached. -/
theorem related_of_reaches (hsrv : Disciplined srv phase) (hJ : ∀ i, Keeps srv phase J i)
    (h : srv.Reaches kinds world s) : ∀ c ∈ s.calls, c.Related J := by
  have hboth : ∀ c ∈ s.calls, Sound phase c ∧ c.Related J := by
    refine Server.calls_invariant (P := fun c => Sound phase c ∧ c.Related J) ?_ ?_ ?_ h
    · intro i
      exact ⟨sound_newCall hsrv i, related_of_running rfl (hJ i).creates⟩
    · intro c k op ok req hc hop
      exact ⟨hc.1.complete hsrv hop ok req, hc.2.complete hJ hc.1 hop ok req⟩
    · intro c t w code hc hcode
      refine ⟨hc.1.run hcode w, ?_⟩
      obtain ⟨rfl, hthreads⟩ := hc.1.only_thread hcode
      exact hc.2.run hthreads w
  exact fun c hc => (hboth c hc).2

theorem relation_of_idle (hsrv : Disciplined srv phase) (hJ : ∀ i, Keeps srv phase J i)
    (h : srv.Reaches kinds world s) {c : Call I} (hc : c ∈ s.calls) (hidle : c.threads = []) :
    J c.kind c.req c.state c.seen c.posted :=
  (related_of_reaches hsrv hJ h c hc).idle hidle

/-! ## The order of the sections -/

/-- What the actions of a log make of a world. -/
abbrev Server.after (srv : Server I) (log : List (Option Nat × I.Action)) (w : I.World) :
    I.World :=
  Log.after srv.act log w

/-- What the sections of a call do and find. -/
abbrev Server.found (srv : Server I) (j : Nat) (log : List (Option Nat × I.Action))
    (w : I.World) : List (I.Action × I.World) :=
  Log.found srv.act j log w

/-- The log says what the world is and what each call has seen. -/
structure Recorded (srv : Server I) (world : I.World) (s : Service I) : Prop where
  current : s.world = Log.after srv.act s.log world
  seen : ∀ j c, s.calls[j]? = some c → c.seen = Log.found srv.act j s.log world
  known : ∀ e ∈ s.log, ∀ j, e.1 = some j → j < s.calls.length

theorem Call.seen_run (c : Call I) (t : Nat) (w : I.World) (code : Code I c.kind) :
    (c.run t w code).seen = c.seen ++ code.action.toList.map fun a => (a, w) := by
  cases code <;> simp [Call.run, Code.action]

theorem seen_complete (c : Call I) (k : Nat) (ok : Bool) (req : I.Request c.kind)
    (op : Op I c.kind) : (srv.complete c k ok req op).seen = c.seen := by
  cases op <;> rfl

theorem recorded_start : Recorded srv world (srv.start kinds world) := by
  refine ⟨rfl, fun j c hc => ?_, fun e he => by cases he⟩
  have hmem : c ∈ kinds.map srv.newCall := List.mem_of_getElem? hc
  obtain ⟨i, _, rfl⟩ := List.mem_map.mp hmem
  rfl

theorem Server.exec_cases {j j' t : Nat} {c c' : Call I} {code : Code I c.kind}
    (h : (srv.exec s j c t code).calls[j']? = some c') :
    j = j' ∧ c' = c.run t s.world code ∨ j ≠ j' ∧ s.calls[j']? = some c' ∨
      j' = s.calls.length ∧ c' = srv.newCall c.kind := by
  have hset (h : (s.calls.set j (c.run t s.world code))[j']? = some c') :=
    (getElem?_set_cases h).imp_right (Or.inl (b := j' = s.calls.length ∧ c' = srv.newCall c.kind))
  cases hspawns : code.spawns with
  | false =>
    simp only [Server.exec, hspawns, Bool.false_eq_true, if_false, List.append_nil] at h
    exact hset h
  | true =>
    simp only [Server.exec, hspawns, if_true] at h
    obtain h | ⟨hlen, hnew⟩ := getElem?_concat_cases h
    · exact hset h
    · exact Or.inr (Or.inr ⟨hlen.trans List.length_set, hnew⟩)

theorem Recorded.exec (h : Recorded srv world s) {j t : Nat} {c : Call I}
    {code : Code I c.kind} (hc : s.calls[j]? = some c) :
    Recorded srv world (srv.exec s j c t code) := by
  have hj : j < s.calls.length := (List.getElem?_eq_some_iff.mp hc).1
  have hlength : s.calls.length ≤ (srv.exec s j c t code).calls.length := by
    simp [Server.exec]
  have hfound (j' : Nat) : Log.found srv.act j' (srv.exec s j c t code).log world =
      Log.found srv.act j' s.log world ++
        if j = j' then code.action.toList.map fun a => (a, s.world) else [] := by
    cases ha : code.action with
    | none => simp [Server.exec, ha]
    | some a => simp [Server.exec, ha, Log.found_concat, h.current]
  constructor
  · cases ha : code.action with
    | none => simpa [Server.exec, ha] using h.current
    | some a => simpa [Server.exec, ha, Log.after_concat] using congrArg (srv.act a) h.current
  · intro j' c' hc'
    rw [hfound]
    obtain ⟨rfl, rfl⟩ | ⟨hne, hold⟩ | ⟨rfl, rfl⟩ := Server.exec_cases hc'
    · rw [if_pos rfl, Call.seen_run, h.seen j c hc]
    · rw [if_neg hne, List.append_nil]
      exact h.seen j' c' hold
    · rw [if_neg (by omega), List.append_nil, Log.found_of_not_mem]
      · rfl
      · intro e he hlen
        exact absurd (h.known e he _ hlen) (Nat.lt_irrefl _)
  · intro e he j' hj'
    rcases List.mem_append.mp he with he | he
    · exact Nat.lt_of_lt_of_le (h.known e he j' hj') hlength
    · obtain ⟨a, _, rfl⟩ := List.mem_map.mp he
      obtain rfl := Option.some.inj hj'
      exact Nat.lt_of_lt_of_le hj hlength

theorem Recorded.step {e : Event I} {s s' : Service I} (h : Recorded srv world s)
    (hstep : srv.step e s = some s') : Recorded srv world s' := by
  obtain ⟨_, ⟨a, _, rfl⟩ | ⟨j, c, k, op, ok, req, _, hc, hop, rfl⟩ |
    ⟨j, c, t, code, _, hc, hcode, rfl⟩⟩ := Server.step_cases hstep
  · refine ⟨?_, fun j c hc => ?_, fun e he j hj => ?_⟩
    · rw [Log.after_concat, ← h.current]
    · rw [Log.found_concat_none]
      exact h.seen j c hc
    · rcases List.mem_append.mp he with he | he
      · exact h.known e he j hj
      · obtain rfl := List.mem_singleton.mp he
        cases hj
  · refine ⟨h.current, fun j' c' hc' => ?_, fun e he j' hj' => ?_⟩
    · obtain ⟨rfl, rfl⟩ | ⟨_, hold⟩ := getElem?_set_cases hc'
      · exact (seen_complete c k ok (req c.kind) op).trans (h.seen j c hc)
      · exact h.seen j' c' hold
    · rw [List.length_set]
      exact h.known e he j' hj'
  · exact h.exec hc

/-! ## The actions of the sections -/

/-- The actions of all sections of the code have a property. -/
def Code.Acts {i : I.Kind} (P : I.Action → Prop) : Code I i → Prop
  | .done => True
  | .set _ next => next.Acts P
  | .spawn next => next.Acts P
  | .locked a next => P a ∧ ∀ w, (next w).Acts P
  | .post _ next => next.Acts P
  | .delete next => next.Acts P
  | .abort => True

theorem acts_resume {i : I.Kind} {P : I.Action → Prop} {threads : List (Code I i)} {t : Nat}
    {next : Code I i} (hthreads : ∀ code ∈ threads, code.Acts P) (hnext : next.Acts P) :
    ∀ code ∈ Code.resume threads t next, code.Acts P := by
  have hset : ∀ code ∈ threads.set t next, code.Acts P := by
    intro code hcode
    rcases List.mem_or_eq_of_mem_set hcode with hcode | rfl
    · exact hthreads code hcode
    · exact hnext
  cases next with
  | done => exact fun code hcode => hthreads code (List.mem_of_mem_eraseIdx hcode)
  | _ => exact hset

theorem acts_run {P : I.Action → Prop} {c : Call I} (hc : ∀ code ∈ c.threads, code.Acts P)
    {t : Nat} {code : Code I c.kind} (hcode : c.threads[t]? = some code) (w : I.World) :
    ∀ code' ∈ (c.run t w code).threads, code'.Acts P := by
  have hacts := hc code (List.mem_of_getElem? hcode)
  cases code with
  | done => exact fun code' hcode' => hc code' (List.mem_of_mem_eraseIdx hcode')
  | locked a next => exact acts_resume hc (hacts.2 w)
  | abort => exact hc
  | _ => exact acts_resume hc hacts

theorem acts_complete {P : I.Action → Prop} (hP : ∀ i q x ok, (srv.proceed i q x ok).Acts P)
    {c : Call I} (hc : ∀ code ∈ c.threads, code.Acts P) (k : Nat) (op : Op I c.kind) (ok : Bool)
    (req : I.Request c.kind) :
    ∀ code ∈ (srv.complete c k ok req op).threads, code.Acts P := by
  intro code hcode
  cases op <;> exact (List.mem_append.mp hcode).elim (hc code) fun hnew =>
    List.mem_singleton.mp hnew ▸ hP _ _ _ _

/-- What the code of all turns does, the log has of all calls. -/
theorem acts_of_reaches {P : I.Action → Prop} (hP : ∀ i q x ok, (srv.proceed i q x ok).Acts P)
    (h : srv.Reaches kinds world s) {j : Nat} {a : I.Action} (ha : (some j, a) ∈ s.log) : P a := by
  have hthreads {s : Service I} (h : srv.Reaches kinds world s) :
      ∀ c ∈ s.calls, ∀ code ∈ c.threads, code.Acts P := by
    refine Server.calls_invariant (P := fun c => ∀ code ∈ c.threads, code.Acts P) ?_ ?_ ?_ h
    · intro i code hcode
      exact List.mem_singleton.mp hcode ▸ hP _ _ _ _
    · exact fun c k op ok req hc _ => acts_complete hP hc k op ok req
    · exact fun c t w code hc hcode => acts_run hc hcode w
  have hlog : ∀ e ∈ s.log, ∀ j, e.1 = some j → P e.2 := by
    refine Server.reaches_invariant
      (P := fun s => ∀ e ∈ s.log, ∀ j, e.1 = some j → P e.2) (fun e he => by cases he) ?_ h
    intro e s s' hreach hs hstep
    obtain ⟨_, ⟨a, _, rfl⟩ | ⟨j, c, k, op, ok, req, _, hc, hop, rfl⟩ |
      ⟨j, c, t, code, _, hc, hcode, rfl⟩⟩ := Server.step_cases hstep
    · intro e' he' j hj
      rcases List.mem_append.mp he' with he' | he'
      · exact hs e' he' j hj
      · obtain rfl := List.mem_singleton.mp he'
        cases hj
    · exact hs
    · intro e' he' j' hj'
      rcases List.mem_append.mp he' with he' | he'
      · exact hs e' he' j' hj'
      · obtain ⟨a, hact, rfl⟩ := List.mem_map.mp he'
        have hacts := hthreads hreach c (List.mem_of_getElem? hc) code (List.mem_of_getElem? hcode)
        cases code with
        | locked a' next =>
          obtain rfl := List.mem_singleton.mp hact
          exact hacts.1
        | _ => cases hact
  exact hlog _ ha j rfl

theorem recorded_of_reaches (h : srv.Reaches kinds world s) : Recorded srv world s :=
  Server.reaches_invariant recorded_start (fun _ _ _ _ hs hstep => hs.step hstep) h

theorem relation_of_found (hsrv : Disciplined srv phase) (hJ : ∀ i, Keeps srv phase J i)
    (h : srv.Reaches kinds world s) {j : Nat} {c : Call I} (hc : s.calls[j]? = some c)
    (hidle : c.threads = []) : J c.kind c.req c.state (srv.found j s.log world) c.posted := by
  rw [Server.found, ← (recorded_of_reaches h).seen j c hc]
  exact relation_of_idle hsrv hJ h (List.mem_of_getElem? hc) hidle

end Catena.Framework.Completion
