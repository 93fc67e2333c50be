import Catena.Framework.Completion

/-!
# The life of a call

An object of a disciplined server waits for its request, makes its successor before it answers,
posts one operation at the end of each turn and is deleted by its last turn. Whatever the order of
completions and threads, no deleted object is used, every object that lives has one operation or
one thread, and one object of each kind listens for the next request.
-/

namespace Catena.Framework.Completion

variable {I : Interface}

/-- Where an object stands between two turns. -/
inductive Phase where
  | creating
  | waiting
  | serving
  | finishing

/-- What the turn of an object comes to. -/
inductive Goal where
  | request
  | answer
  | delete

/-- What a turn posts at its end, and the phase it leaves. -/
def Goal.Posts {i : I.Kind} (phase : I.State i → Phase) : Goal → Op I i → I.State i → Prop
  | .request, .request, x => phase x = .waiting
  | .answer, .write _, x => phase x = .serving
  | .answer, .finish _, x => phase x = .finishing
  | _, _, _ => False

/-- Code that comes to its goal, after it has made a successor if that is still to be done. -/
def Code.Follows {i : I.Kind} (phase : I.State i → Phase) (goal : Goal) :
    Bool → I.State i → Code I i → Prop
  | _, _, .done => False
  | spawns, _, .set y next => next.Follows phase goal spawns y
  | spawns, x, .spawn next => goal = .answer ∧ spawns = true ∧ next.Follows phase goal false x
  | spawns, x, .locked _ next => ∀ w, (next w).Follows phase goal spawns x
  | spawns, x, .post op next => spawns = false ∧ next = .done ∧ goal.Posts phase op x
  | spawns, _, .delete next => goal = .delete ∧ spawns = false ∧ next = .done
  | _, _, .abort => True

/-- The turns of a server in the phases of its objects. -/
structure Disciplined (srv : Server I) (phase : (i : I.Kind) → I.State i → Phase) : Prop where
  fresh : ∀ i, phase i (srv.fresh i) = .creating
  creates : ∀ i q x, phase i x = .creating →
    (srv.proceed i q x true).Follows (phase i) .request false x
  accepts : ∀ i q x, phase i x = .waiting →
    (srv.proceed i q x true).Follows (phase i) .answer true x
  continues : ∀ i q x, phase i x = .serving →
    (srv.proceed i q x true).Follows (phase i) .answer false x
  finishes : ∀ i q x, phase i x = .finishing →
    (srv.proceed i q x true).Follows (phase i) .delete false x
  fails : ∀ i q x, (srv.proceed i q x false).Follows (phase i) .delete false x

/-- A request, messages, and perhaps an answer. -/
def trace {i : I.Kind} (ms : List (I.Message i)) (fin : Option (I.Answer i)) : List (Op I i) :=
  .request :: (ms.map .write ++ (fin.map .finish).toList)

/-- What an object has done when it is on a turn with a goal. -/
def History (c : Call I) (spawns : Bool) : Goal → Prop
  | .request => c.posted = [] ∧ c.spawned = false ∧ c.refused = false
  | .answer => (∃ ms, c.posted = trace ms none) ∧ c.spawned = !spawns ∧ c.refused = false
  | .delete => c.posted = trace [] none ∧ c.spawned = false ∧ c.refused = true ∨
      (∃ ms fin, c.posted = trace ms fin) ∧ c.spawned = true ∧ c.refused = false

/-- What an object has done when it waits for an operation. -/
def Waits (phase : (i : I.Kind) → I.State i → Phase) (c : Call I) : Op I c.kind → Prop
  | .request => phase c.kind c.state = .waiting ∧ c.posted = trace [] none ∧ c.spawned = false ∧
      c.refused = false
  | .write _ => phase c.kind c.state = .serving ∧ (∃ ms, c.posted = trace ms none) ∧
      c.spawned = true ∧ c.refused = false
  | .finish r => phase c.kind c.state = .finishing ∧ (∃ ms, c.posted = trace ms (some r)) ∧
      c.spawned = true ∧ c.refused = false

/-- An object runs one thread, waits for one operation, or has been deleted. -/
inductive Sound (phase : (i : I.Kind) → I.State i → Phase) (c : Call I) : Prop where
  | running (goal : Goal) (spawns : Bool) (code : Code I c.kind) (alive : c.alive = true)
      (pending : c.pending = []) (threads : c.threads = [code])
      (follows : code.Follows (phase c.kind) goal spawns c.state) (history : History c spawns goal)
  | awaiting (op : Op I c.kind) (alive : c.alive = true) (pending : c.pending = [op])
      (threads : c.threads = []) (waits : Waits phase c op)
  | deleted (alive : c.alive = false) (pending : c.pending = []) (threads : c.threads = [])
      (history : History c false .delete)

theorem getElem?_singleton_eq {α : Type} {x y : α} {k : Nat} (h : [x][k]? = some y) :
    k = 0 ∧ y = x := by
  rw [List.getElem?_singleton] at h
  split at h
  · exact ⟨by assumption, (Option.some.inj h).symm⟩
  · cases h

theorem resume_of_ne_done {i : I.Kind} {code next : Code I i} (h : next ≠ .done) :
    Code.resume [code] 0 next = [next] := by
  cases next with
  | done => exact absurd rfl h
  | _ => rfl

theorem Code.Follows.ne_done {i : I.Kind} {phase : I.State i → Phase} {goal : Goal}
    {spawns : Bool} {x : I.State i} {code : Code I i} (h : code.Follows phase goal spawns x) :
    code ≠ .done := by
  rintro rfl
  exact h

variable {phase : (i : I.Kind) → I.State i → Phase}

theorem sound_newCall {srv : Server I} (hsrv : Disciplined srv phase) (i : I.Kind) :
    Sound phase (srv.newCall i) :=
  .running .request false _ rfl rfl rfl (hsrv.creates i _ _ (hsrv.fresh i)) ⟨rfl, rfl, rfl⟩

theorem trace_write {i : I.Kind} (ms : List (I.Message i)) (m : I.Message i) :
    trace ms none ++ [.write m] = trace (ms ++ [m]) none := by
  simp [trace]

theorem trace_finish {i : I.Kind} (ms : List (I.Message i)) (r : I.Answer i) :
    trace ms none ++ [.finish r] = trace ms (some r) := by
  simp [trace]

theorem trace_inj {i : I.Kind} {ms ms' : List (I.Message i)} {fin fin' : Option (I.Answer i)}
    (h : trace ms fin = trace ms' fin') : ms = ms' ∧ fin = fin' := by
  have htail := (List.cons.inj h).2
  clear h
  induction ms generalizing ms' with
  | nil =>
    cases ms' with
    | nil => cases fin <;> cases fin' <;> cases htail <;> exact ⟨rfl, rfl⟩
    | cons m' ms' => cases fin <;> cases htail
  | cons m ms ih =>
    cases ms' with
    | nil => cases fin' <;> cases htail
    | cons m' ms' =>
      obtain ⟨hm, hrest⟩ := List.cons.inj htail
      obtain ⟨rfl, rfl⟩ := ih hrest
      exact ⟨congrArg (· :: ms) (Op.write.inj hm), rfl⟩

/-- A step of the thread of a sound object keeps it sound. -/
theorem Sound.run {c : Call I} (h : Sound phase c) {t : Nat} {code : Code I c.kind}
    (hcode : c.threads[t]? = some code) (w : I.World) : Sound phase (c.run t w code) := by
  cases h with
  | running goal spawns code' alive pending threads follows history =>
    rw [threads] at hcode
    obtain ⟨rfl, rfl⟩ := getElem?_singleton_eq hcode
    cases code with
    | done => exact absurd rfl follows.ne_done
    | set x next =>
      refine .running goal spawns next alive pending ?_ follows history
      exact (congrArg (fun l => Code.resume l 0 next) threads).trans
        (resume_of_ne_done (Code.Follows.ne_done follows))
    | spawn next =>
      obtain ⟨rfl, rfl, hnext⟩ := follows
      refine .running .answer false next alive pending ?_ hnext ⟨history.1, rfl, history.2.2⟩
      exact (congrArg (fun l => Code.resume l 0 next) threads).trans
        (resume_of_ne_done hnext.ne_done)
    | locked a next =>
      refine .running goal spawns (next w) alive pending ?_ (follows w) ?_
      · exact (congrArg (fun l => Code.resume l 0 (next w)) threads).trans
          (resume_of_ne_done (follows w).ne_done)
      · cases goal <;> exact history
    | post op next =>
      obtain ⟨rfl, rfl, hpost⟩ := follows
      have hthreads : Code.resume c.threads 0 .done = [] := by rw [threads]; rfl
      have hpending : c.pending ++ [op] = [op] := by rw [pending]; rfl
      refine .awaiting op alive hpending hthreads ?_
      cases goal with
      | request =>
        obtain ⟨hposted, hspawned, hrefused⟩ := history
        cases op with
        | request => exact ⟨hpost, congrArg (· ++ [_]) hposted, hspawned, hrefused⟩
        | write m => cases hpost
        | finish r => cases hpost
      | answer =>
        obtain ⟨⟨ms, hposted⟩, hspawned, hrefused⟩ := history
        cases op with
        | request => cases hpost
        | write m =>
          refine ⟨hpost, ⟨ms ++ [m], ?_⟩, hspawned, hrefused⟩
          exact (congrArg (· ++ [_]) hposted).trans (trace_write ms m)
        | finish r =>
          refine ⟨hpost, ⟨ms, ?_⟩, hspawned, hrefused⟩
          exact (congrArg (· ++ [_]) hposted).trans (trace_finish ms r)
      | delete => cases op <;> cases hpost
    | delete next =>
      obtain ⟨rfl, rfl, rfl⟩ := follows
      have hthreads : Code.resume c.threads 0 .done = [] := by rw [threads]; rfl
      exact .deleted rfl pending hthreads history
    | abort => exact .running goal spawns .abort alive pending threads trivial history
  | awaiting op alive pending threads waits =>
    rw [threads] at hcode
    cases hcode
  | deleted alive pending threads history =>
    rw [threads] at hcode
    cases hcode

/-- A completion starts the next turn of a sound object. -/
theorem Sound.complete {srv : Server I} (hsrv : Disciplined srv phase) {c : Call I}
    (h : Sound phase c) {k : Nat} {op : Op I c.kind} (hop : c.pending[k]? = some op) (ok : Bool)
    (req : I.Request c.kind) : Sound phase (srv.complete c k ok req op) := by
  cases h with
  | running goal spawns code alive pending threads follows history =>
    rw [pending] at hop
    cases hop
  | awaiting op' alive pending threads waits =>
    rw [pending] at hop
    obtain ⟨rfl, rfl⟩ := getElem?_singleton_eq hop
    have hpending : c.pending.eraseIdx 0 = [] := by rw [pending]; rfl
    have hthreads (code : Code I c.kind) : c.threads ++ [code] = [code] := by rw [threads]; rfl
    cases op with
    | request =>
      obtain ⟨hphase, hposted, hspawned, hrefused⟩ := waits
      cases ok with
      | false =>
        exact .running .delete false _ alive hpending (hthreads _) (hsrv.fails _ _ _)
          (Or.inl ⟨hposted, hspawned, rfl⟩)
      | true =>
        exact .running .answer true _ alive hpending (hthreads _) (hsrv.accepts _ _ _ hphase)
          ⟨⟨[], hposted⟩, hspawned, rfl⟩
    | write m =>
      obtain ⟨hphase, ⟨ms, hposted⟩, hspawned, hrefused⟩ := waits
      cases ok with
      | false =>
        exact .running .delete false _ alive hpending (hthreads _) (hsrv.fails _ _ _)
          (Or.inr ⟨⟨ms, none, hposted⟩, hspawned, hrefused⟩)
      | true =>
        exact .running .answer false _ alive hpending (hthreads _) (hsrv.continues _ _ _ hphase)
          ⟨⟨ms, hposted⟩, hspawned, hrefused⟩
    | finish r =>
      obtain ⟨hphase, ⟨ms, hposted⟩, hspawned, hrefused⟩ := waits
      have hhistory : History (srv.complete c 0 ok req (.finish r)) false .delete :=
        Or.inr ⟨⟨ms, some r, hposted⟩, hspawned, hrefused⟩
      cases ok with
      | false =>
        exact .running .delete false _ alive hpending (hthreads _) (hsrv.fails _ _ _) hhistory
      | true =>
        exact .running .delete false _ alive hpending (hthreads _) (hsrv.finishes _ _ _ hphase)
          hhistory
  | deleted alive pending threads history =>
    rw [pending] at hop
    cases hop

variable {srv : Server I} {kinds : List I.Kind} {world : I.World} {s : Service I}

theorem sound_of_reaches (hsrv : Disciplined srv phase) (h : srv.Reaches kinds world s) :
    ∀ c ∈ s.calls, Sound phase c :=
  Server.calls_invariant (sound_newCall hsrv)
    (fun _ _ _ ok req hc hop => hc.complete hsrv hop ok req)
    (fun _ _ w _ hc hcode => hc.run hcode w) h

/-! ## What the life of the objects gives -/

theorem Sound.alive_iff {c : Call I} (h : Sound phase c) :
    c.pending.length + c.threads.length = if c.alive then 1 else 0 := by
  cases h with
  | running goal spawns code alive pending threads => simp [alive, pending, threads]
  | awaiting op alive pending threads => simp [alive, pending, threads]
  | deleted alive pending threads => simp [alive, pending, threads]

theorem Sound.alive_of_pending {c : Call I} (h : Sound phase c) {k : Nat} {op : Op I c.kind}
    (hop : c.pending[k]? = some op) : c.alive = true := by
  have halive := h.alive_iff
  have hpos := (List.getElem?_eq_some_iff.mp hop).1
  by_contra hdead
  rw [if_neg hdead] at halive
  omega

theorem Sound.alive_of_thread {c : Call I} (h : Sound phase c) {t : Nat} {code : Code I c.kind}
    (hcode : c.threads[t]? = some code) : c.alive = true := by
  have halive := h.alive_iff
  have hpos := (List.getElem?_eq_some_iff.mp hcode).1
  by_contra hdead
  rw [if_neg hdead] at halive
  omega

theorem Sound.only_thread {c : Call I} (h : Sound phase c) {t : Nat} {code : Code I c.kind}
    (hcode : c.threads[t]? = some code) : t = 0 ∧ c.threads = [code] := by
  cases h with
  | running goal spawns code' alive pending threads follows history =>
    rw [threads] at hcode
    obtain ⟨rfl, rfl⟩ := getElem?_singleton_eq hcode
    exact ⟨rfl, threads⟩
  | awaiting op alive pending threads waits =>
    rw [threads] at hcode
    cases hcode
  | deleted alive pending threads history =>
    rw [threads] at hcode
    cases hcode

theorem noFault_of_reaches (hsrv : Disciplined srv phase) (h : srv.Reaches kinds world s) :
    s.fault = false := by
  refine Server.reaches_invariant (P := fun s => s.fault = false) rfl ?_ h
  intro e s s' hreach hfault hstep
  have hsound := sound_of_reaches hsrv hreach
  obtain ⟨_, ⟨a, _, rfl⟩ | ⟨j, c, k, op, ok, req, _, hc, hop, rfl⟩ |
    ⟨j, c, t, code, _, hc, hcode, rfl⟩⟩ := Server.step_cases hstep
  · exact hfault
  · have halive := (hsound c (List.mem_of_getElem? hc)).alive_of_pending hop
    simp [hfault, halive]
  · have halive := (hsound c (List.mem_of_getElem? hc)).alive_of_thread hcode
    simp [Server.exec, hfault, halive]

/-- What an object has posted is the beginning of a request, messages and one answer. -/
theorem Sound.posted {c : Call I} (h : Sound phase c) :
    c.posted = [] ∨ ∃ ms fin, c.posted = trace ms fin := by
  have hhistory {spawns : Bool} {goal : Goal} (hist : History c spawns goal) :
      c.posted = [] ∨ ∃ ms fin, c.posted = trace ms fin := by
    cases goal with
    | request => exact Or.inl hist.1
    | answer =>
      obtain ⟨ms, hposted⟩ := hist.1
      exact Or.inr ⟨ms, none, hposted⟩
    | delete =>
      obtain ⟨hposted, _⟩ | ⟨hposted, _⟩ := hist
      · exact Or.inr ⟨[], none, hposted⟩
      · exact Or.inr hposted
  cases h with
  | running goal spawns code alive pending threads follows history => exact hhistory history
  | awaiting op alive pending threads waits =>
    cases op with
    | request => exact Or.inr ⟨[], none, waits.2.1⟩
    | write m =>
      obtain ⟨ms, hposted⟩ := waits.2.1
      exact Or.inr ⟨ms, none, hposted⟩
    | finish r =>
      obtain ⟨ms, hposted⟩ := waits.2.1
      exact Or.inr ⟨ms, some r, hposted⟩
  | deleted alive pending threads history => exact hhistory history

/-! ## Listening -/

theorem countP_set_add {α : Type} {p : α → Bool} {l : List α} {j : Nat} {x : α} (y : α)
    (hx : l[j]? = some x) :
    (l.set j y).countP p + (if p x then 1 else 0) = l.countP p + if p y then 1 else 0 := by
  obtain ⟨hj, rfl⟩ := List.getElem?_eq_some_iff.mp hx
  have hpos : (if p l[j] then 1 else 0) ≤ l.countP p := by
    split
    · exact List.countP_pos_iff.mpr ⟨l[j], List.getElem_mem hj, by assumption⟩
    · exact Nat.zero_le _
  rw [List.countP_set hj]
  omega

theorem countP_set_of_eq {α : Type} {p : α → Bool} {l : List α} {j : Nat} {x y : α}
    (hx : l[j]? = some x) (h : p y = p x) : (l.set j y).countP p = l.countP p := by
  have hadd := countP_set_add y hx (p := p)
  rw [h] at hadd
  exact Nat.add_right_cancel hadd

theorem kind_complete (c : Call I) (k : Nat) (ok : Bool) (req : I.Request c.kind)
    (op : Op I c.kind) : (srv.complete c k ok req op).kind = c.kind := by
  cases op <;> rfl

theorem spawned_complete (c : Call I) (k : Nat) (ok : Bool) (req : I.Request c.kind)
    (op : Op I c.kind) : (srv.complete c k ok req op).spawned = c.spawned := by
  cases op <;> rfl

theorem Call.kind_run (c : Call I) (t : Nat) (w : I.World) (code : Code I c.kind) :
    (c.run t w code).kind = c.kind := by
  cases code <;> rfl

theorem Call.spawned_run (c : Call I) (t : Nat) (w : I.World) (code : Code I c.kind) :
    (c.run t w code).spawned = (c.spawned || code.spawns) := by
  cases code <;> simp [Call.run, Code.spawns]

/-- An object makes a successor only if it has none. -/
theorem Sound.not_spawned {c : Call I} (h : Sound phase c) {t : Nat} {code : Code I c.kind}
    (hcode : c.threads[t]? = some code) (hspawns : code.spawns = true) : c.spawned = false := by
  cases h with
  | running goal spawns code' alive pending threads follows history =>
    rw [threads] at hcode
    obtain ⟨rfl, rfl⟩ := getElem?_singleton_eq hcode
    cases code with
    | spawn next =>
      obtain ⟨rfl, rfl, _⟩ := follows
      exact history.2.1
    | _ => cases hspawns
  | awaiting op alive pending threads waits =>
    rw [threads] at hcode
    cases hcode
  | deleted alive pending threads history =>
    rw [threads] at hcode
    cases hcode

section Listening

variable [DecidableEq I.Kind]

def Op.isRequest {i : I.Kind} : Op I i → Bool
  | .request => true
  | _ => false

/-- The object of a kind that has not made its successor. -/
def Call.Last (i : I.Kind) (c : Call I) : Bool := c.kind = i && !c.spawned

/-- A request of a kind is waited for, or the server has refused to wait. -/
def Call.Listens (i : I.Kind) (c : Call I) : Bool :=
  c.kind = i && (c.refused || c.pending.any Op.isRequest)

/-- There are always as many objects of a kind without a successor as there were at the start. -/
theorem countP_last (hsrv : Disciplined srv phase) (h : srv.Reaches kinds world s) (i : I.Kind) :
    s.calls.countP (Call.Last i) = kinds.count i := by
  refine Server.reaches_invariant
    (P := fun s => s.calls.countP (Call.Last i) = kinds.count i) ?_ ?_ h
  · rw [Server.start, List.countP_map, List.count_eq_countP]
    apply List.countP_congr
    intro i' _
    have hlast : Call.Last i (srv.newCall i') = decide (i' = i) := Bool.and_true _
    rw [Function.comp_apply, hlast, decide_eq_true_iff, beq_iff_eq]
  · intro e s s' hreach hcount hstep
    have hsound := sound_of_reaches hsrv hreach
    obtain ⟨_, ⟨a, _, rfl⟩ | ⟨j, c, k, op, ok, req, _, hc, hop, rfl⟩ |
      ⟨j, c, t, code, _, hc, hcode, rfl⟩⟩ := Server.step_cases hstep
    · exact hcount
    · refine (countP_set_of_eq hc ?_).trans hcount
      rw [Call.Last, Call.Last, kind_complete, spawned_complete]
    · cases hspawns : code.spawns with
      | false =>
        have hcalls : (srv.exec s j c t code).calls = s.calls.set j (c.run t s.world code) := by
          simp [Server.exec, hspawns]
        rw [hcalls]
        refine (countP_set_of_eq hc ?_).trans hcount
        rw [Call.Last, Call.Last, Call.kind_run, Call.spawned_run, hspawns, Bool.or_false]
      | true =>
        have hcalls : (srv.exec s j c t code).calls =
            s.calls.set j (c.run t s.world code) ++ [srv.newCall c.kind] := by
          simp [Server.exec, hspawns]
        have hbefore := (hsound c (List.mem_of_getElem? hc)).not_spawned hcode hspawns
        have hset := countP_set_add (c.run t s.world code) hc (p := Call.Last i)
        have hold : Call.Last i c = decide (c.kind = i) := by simp [Call.Last, hbefore]
        have hnew : Call.Last i (srv.newCall c.kind) = decide (c.kind = i) :=
          Bool.and_true _
        have hrun : Call.Last i (c.run t s.world code) = false := by
          rw [Call.Last, Call.spawned_run, hspawns, Bool.or_true, Bool.not_true, Bool.and_false]
        rw [hold, hrun] at hset
        rw [hcalls, List.countP_append, List.countP_singleton, hnew, ← hcount]
        exact hset

theorem Sound.listens_iff {c : Call I} (h : Sound phase c) (hidle : c.threads = []) (i : I.Kind) :
    c.Listens i = c.Last i := by
  have hdeleted {goal : Goal} (hist : History c false goal) (hgoal : goal = .delete)
      (hpending : c.pending = []) : c.Listens i = c.Last i := by
    subst hgoal
    obtain ⟨_, hspawned, hrefused⟩ | ⟨_, hspawned, hrefused⟩ := hist
    · simp [Call.Listens, Call.Last, hspawned, hrefused]
    · simp [Call.Listens, Call.Last, hspawned, hrefused, hpending]
  cases h with
  | running goal spawns code alive pending threads follows history =>
    rw [threads] at hidle
    cases hidle
  | awaiting op alive pending threads waits =>
    cases op with
    | request => simp [Call.Listens, Call.Last, pending, Op.isRequest, waits.2.2.1]
    | write m => simp [Call.Listens, Call.Last, pending, Op.isRequest, waits.2.2.1, waits.2.2.2]
    | finish r => simp [Call.Listens, Call.Last, pending, Op.isRequest, waits.2.2.1, waits.2.2.2]
  | deleted alive pending threads history => exact hdeleted history rfl pending

theorem countP_listens (hsrv : Disciplined srv phase) (h : srv.Reaches kinds world s)
    (hidle : ∀ c ∈ s.calls, c.threads = []) (i : I.Kind) :
    s.calls.countP (Call.Listens i) = kinds.count i := by
  rw [← countP_last hsrv h i]
  apply List.countP_congr
  intro c hc
  rw [(sound_of_reaches hsrv h c hc).listens_iff (hidle c hc) i]

end Listening

end Catena.Framework.Completion
