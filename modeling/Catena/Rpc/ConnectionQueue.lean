import Catena.Store.Status
import Mathlib.Data.List.Induction
import Mathlib.Data.List.Sort

/-!
# The connection queue

A service keeps its open connections in a vector that is sorted from the lowest to the highest
priority. When it is full, a new connection first displaces the cancelled ones and then, if it
outranks it, the front.
-/

namespace Catena.Rpc

open Store (ExceptionWithStatus)

/-- What the queue reads of an `IConnect`. -/
structure Connect where
  priority : Nat
  objectId : Nat

/-- `Connect::operator<`. -/
def Connect.lt (c other : Connect) : Bool :=
  c.priority < other.priority || (c.priority = other.priority && c.objectId ≥ other.objectId)

/-- The connection comes first by priority, and by its smaller id among equal priorities. -/
def Connect.Outranks (c other : Connect) : Prop :=
  other.priority < c.priority ∨ (c.priority = other.priority ∧ c.objectId < other.objectId)

/-- What `registerConnection` returns and leaves behind. -/
structure Registration (ι : Type) where
  added : Bool
  connectionQueue : List ι
  shutdown : List ι

section Queue

variable {ι : Type} (connect : ι → Connect)

/-- `ConnectionQueue::registerConnection`; connections are held by pointers `ι`. -/
def registerConnection (maxConnections : Nat) (isCancelled : ι → Bool) (connectionQueue : List ι)
    (cd : Option ι) : Except ExceptionWithStatus (Registration ι) :=
  match cd with
  | none => .error ⟨"Cannot add nullptr to connection queue", .invalidArgument⟩
  | some cd =>
      let full := maxConnections ≤ connectionQueue.length
      let shutdown := if full then connectionQueue.filter isCancelled else []
      let connectionQueue :=
        if full then connectionQueue.filter fun connection => !isCancelled connection
        else connectionQueue
      let it := connectionQueue.findIdx fun connection => (connect cd).lt (connect connection)
      if maxConnections ≤ connectionQueue.length then
        if it ≠ 0 then
          let connectionQueue := connectionQueue.insertIdx it cd
          .ok ⟨true, connectionQueue.tail, shutdown ++ connectionQueue.head?.toList⟩
        else .ok ⟨false, connectionQueue, shutdown⟩
      else .ok ⟨true, connectionQueue.insertIdx it cd, shutdown⟩

/-- `ConnectionQueue::deregisterConnection`. -/
def deregisterConnection [DecidableEq ι] (connectionQueue : List ι) (cd : Option ι) : List ι :=
  connectionQueue.eraseP fun connection => some connection = cd

/-- What can happen to the queue and to the connections in it. -/
inductive Event (ι : Type) where
  | registerConnection (cd : Option ι)
  | deregisterConnection (cd : Option ι)
  | cancel (connection : ι)

structure QueueState (ι : Type) where
  connectionQueue : List ι := []
  cancelled : List ι := []

def QueueState.isCancelled [DecidableEq ι] (s : QueueState ι) (connection : ι) : Bool :=
  connection ∈ s.cancelled

def step [DecidableEq ι] (maxConnections : Nat) (s : QueueState ι) : Event ι → QueueState ι
  | .registerConnection cd =>
      match registerConnection connect maxConnections s.isCancelled s.connectionQueue cd with
      | .ok registration => { s with connectionQueue := registration.connectionQueue }
      | .error _ => s
  | .deregisterConnection cd =>
      { s with connectionQueue := deregisterConnection s.connectionQueue cd }
  | .cancel connection => { s with cancelled := connection :: s.cancelled }

def runQueue [DecidableEq ι] (maxConnections : Nat) (events : List (Event ι)) : QueueState ι :=
  events.foldl (step connect maxConnections) {}

/-- The connections a run tries to register, in order. -/
def registered : List (Event ι) → List ι
  | [] => []
  | .registerConnection (some cd) :: events => cd :: registered events
  | _ :: events => registered events

/-- Every connection is registered at most once, and no two have the same id. -/
structure Legal (events : List (Event ι)) : Prop where
  once : (registered events).Nodup
  distinct : ∀ a ∈ registered events, ∀ b ∈ registered events,
    (connect a).objectId = (connect b).objectId → a = b

/-! The order of the connections. -/

theorem Connect.lt_iff (c other : Connect) : c.lt other = true ↔
    c.priority < other.priority ∨ (c.priority = other.priority ∧ other.objectId ≤ c.objectId) := by
  simp [Connect.lt]

theorem Connect.outranks_of_lt {c other : Connect} (h : c.lt other = true)
    (hid : c.objectId ≠ other.objectId) : other.Outranks c := by
  obtain h | ⟨hp, hle⟩ := (Connect.lt_iff c other).mp h
  · exact .inl h
  · exact .inr ⟨hp.symm, by omega⟩

def Below (a b : ι) : Prop := (connect a).lt (connect b) = true

instance : DecidableRel (Below connect) := fun a b =>
  inferInstanceAs (Decidable ((connect a).lt (connect b) = true))

instance : Std.Total (Below connect) := ⟨fun a b => by
  simp only [Below, Connect.lt_iff]
  omega⟩

instance : IsTrans ι (Below connect) := ⟨fun a b c => by
  simp only [Below, Connect.lt_iff]
  omega⟩

theorem insertIdx_findIdx (cd : ι) (queue : List ι) :
    queue.insertIdx (queue.findIdx fun connection => (connect cd).lt (connect connection)) cd =
      queue.orderedInsert (Below connect) cd := by
  induction queue with
  | nil => rfl
  | cons c queue ih =>
    rw [List.orderedInsert_cons, List.findIdx_cons, ← ih]
    cases h : (connect cd).lt (connect c) with
    | true => simp [Below, h]
    | false => simp [Below, h]

/-- What a registration does: there is room, there is room once the cancelled connections are
gone, the connection is turned away, or it takes the place of the front. -/
theorem registerConnection_cases {maxConnections : Nat} {isCancelled : ι → Bool}
    {queue live gone : List ι} {cd : ι} {r : Registration ι}
    (hlive : queue.filter (fun c => !isCancelled c) = live) (hgone : queue.filter isCancelled = gone)
    (h : registerConnection connect maxConnections isCancelled queue (some cd) = .ok r) :
    (queue.length < maxConnections ∧ r = ⟨true, queue.orderedInsert (Below connect) cd, []⟩) ∨
    (maxConnections ≤ queue.length ∧ live.length < maxConnections ∧
      r = ⟨true, live.orderedInsert (Below connect) cd, gone⟩) ∨
    (maxConnections ≤ queue.length ∧ maxConnections ≤ live.length ∧
      (∀ front rest, live = front :: rest → Below connect cd front) ∧ r = ⟨false, live, gone⟩) ∨
    ∃ front rest, maxConnections ≤ queue.length ∧ maxConnections ≤ live.length ∧
      live = front :: rest ∧ ¬Below connect cd front ∧
      r = ⟨true, rest.orderedInsert (Below connect) cd, gone ++ [front]⟩ := by
  simp only [registerConnection, insertIdx_findIdx, hlive, hgone] at h
  by_cases hfull : maxConnections ≤ queue.length
  · simp only [hfull, if_true] at h
    by_cases hl : maxConnections ≤ live.length
    · simp only [hl, if_true] at h
      cases live with
      | nil =>
        refine .inr (.inr (.inl ⟨hfull, hl, by simp, ?_⟩))
        simpa using h.symm
      | cons front rest =>
        by_cases hf : Below connect cd front
        · refine .inr (.inr (.inl ⟨hfull, hl, fun _ _ he => ?_, ?_⟩))
          · obtain ⟨rfl, _⟩ := List.cons.inj he
            exact hf
          · rw [List.findIdx_cons, show (connect cd).lt (connect front) = true from hf] at h
            simpa using h.symm
        · refine .inr (.inr (.inr ⟨front, rest, hfull, hl, rfl, hf, ?_⟩))
          have hlt : (connect cd).lt (connect front) = false := by simpa [Below] using hf
          rw [List.orderedInsert_of_not_le _ _ hf, List.findIdx_cons, hlt] at h
          simpa using h.symm
    · simp only [hl, if_false] at h
      exact .inr (.inl ⟨hfull, by omega, by simpa using h.symm⟩)
  · simp only [hfull, if_false] at h
    exact .inl ⟨by omega, by simpa using h.symm⟩

/-- What holds of the queue after every call. -/
structure Invariant (maxConnections : Nat) (seen : List ι) (queue : List ι) : Prop where
  nodup : queue.Nodup
  sorted : queue.Pairwise (Below connect)
  bounded : queue.length ≤ maxConnections
  seen : ∀ c ∈ queue, c ∈ seen

variable {connect}

theorem Invariant.sublist {maxConnections : Nat} {seen queue queue' : List ι}
    (h : Invariant connect maxConnections seen queue) (hsub : queue'.Sublist queue) :
    Invariant connect maxConnections seen queue' :=
  ⟨h.nodup.sublist hsub, h.sorted.sublist hsub, hsub.length_le.trans h.bounded,
    fun c hc => h.seen c (hsub.subset hc)⟩

theorem Invariant.orderedInsert {maxConnections : Nat} {seen queue : List ι} {cd : ι}
    (h : Invariant connect maxConnections seen queue) (hnew : cd ∉ seen)
    (hroom : queue.length < maxConnections) :
    Invariant connect maxConnections (seen ++ [cd]) (queue.orderedInsert (Below connect) cd) where
  nodup := (queue.perm_orderedInsert _ cd).nodup_iff.mpr
    (List.nodup_cons.mpr ⟨fun hc => hnew (h.seen cd hc), h.nodup⟩)
  sorted := h.sorted.orderedInsert cd queue
  bounded := by
    rw [List.orderedInsert_length]
    omega
  seen := fun c hc => by
    obtain rfl | hc := (List.mem_orderedInsert _).mp hc
    · simp
    · simp [h.seen c hc]

theorem Invariant.mono {maxConnections : Nat} {seen seen' queue : List ι}
    (h : Invariant connect maxConnections seen queue) (hsub : ∀ c ∈ seen, c ∈ seen') :
    Invariant connect maxConnections seen' queue :=
  ⟨h.nodup, h.sorted, h.bounded, fun c hc => hsub c (h.seen c hc)⟩

theorem Invariant.register {maxConnections : Nat} {isCancelled : ι → Bool} {seen queue : List ι}
    {cd : ι} {r : Registration ι} (h : Invariant connect maxConnections seen queue)
    (hnew : cd ∉ seen)
    (hr : registerConnection connect maxConnections isCancelled queue (some cd) = .ok r) :
    Invariant connect maxConnections (seen ++ [cd]) r.connectionQueue := by
  have hlive := h.sublist (List.filter_sublist (p := fun c => !isCancelled c))
  obtain ⟨hroom, rfl⟩ | ⟨_, hroom, rfl⟩ | ⟨_, _, _, rfl⟩ | ⟨front, rest, _, _, hcons, _, rfl⟩ :=
    registerConnection_cases connect rfl rfl hr
  · exact h.orderedInsert hnew hroom
  · exact hlive.orderedInsert hnew hroom
  · exact hlive.mono fun c hc => by simp [hc]
  · rw [hcons] at hlive
    have hbound := hlive.bounded
    rw [List.length_cons] at hbound
    exact (hlive.sublist (List.sublist_cons_self front rest)).orderedInsert hnew (by omega)

/-- A live connection is shut down only to make room in a queue that is full of live
connections, and it is their least. -/
theorem Invariant.shutdown {maxConnections : Nat} {isCancelled : ι → Bool} {seen queue : List ι}
    {cd c : ι} {r : Registration ι} (h : Invariant connect maxConnections seen queue)
    (hr : registerConnection connect maxConnections isCancelled queue (some cd) = .ok r)
    (hc : c ∈ r.shutdown) (halive : isCancelled c = false) :
    queue.length = maxConnections ∧ (∀ k ∈ queue, isCancelled k = false) ∧ c ∈ queue ∧
      (∀ k ∈ queue, k ≠ c → Below connect c k) ∧ Below connect c cd := by
  have hgone : c ∉ queue.filter isCancelled := by simp [halive]
  obtain ⟨_, rfl⟩ | ⟨_, _, rfl⟩ | ⟨_, _, _, rfl⟩ | ⟨front, rest, hfull, hl, hcons, hf, rfl⟩ :=
    registerConnection_cases connect rfl rfl hr
  · cases hc
  · exact absurd hc hgone
  · exact absurd hc hgone
  · obtain rfl : c = front := by simpa [hgone] using hc
    have hlen : (queue.filter fun k => !isCancelled k).length = queue.length :=
      Nat.le_antisymm (List.length_filter_le _ _) (h.bounded.trans hl)
    have hall := List.length_filter_eq_length_iff.mp hlen
    have hqueue : queue = c :: rest := (List.filter_eq_self.mpr hall).symm.trans hcons
    have hsorted := hqueue ▸ h.sorted
    refine ⟨Nat.le_antisymm h.bounded hfull, fun k hk => by simpa using hall k hk,
      by simp [hqueue], fun k hk hne => ?_, (Std.Total.total c cd).resolve_right hf⟩
    obtain rfl | hk := List.mem_cons.mp (hqueue ▸ hk)
    · exact absurd rfl hne
    · exact (List.pairwise_cons.mp hsorted).1 k hk

/-- A connection that is turned away is below every queued one. -/
theorem Invariant.rejected {maxConnections : Nat} {isCancelled : ι → Bool} {seen queue : List ι}
    {cd : ι} {r : Registration ι} (h : Invariant connect maxConnections seen queue)
    (hr : registerConnection connect maxConnections isCancelled queue (some cd) = .ok r)
    (hadded : r.added = false) : ∀ k ∈ r.connectionQueue, Below connect cd k := by
  obtain ⟨_, rfl⟩ | ⟨_, _, rfl⟩ | ⟨_, _, hfront, rfl⟩ | ⟨front, rest, _, _, _, _, rfl⟩ :=
    registerConnection_cases connect rfl rfl hr
  · cases hadded
  · cases hadded
  · intro k hk
    have hsorted := (h.sublist (List.filter_sublist (p := fun c => !isCancelled c))).sorted
    cases hlive : queue.filter fun c => !isCancelled c with
    | nil => simp [hlive] at hk
    | cons front rest =>
      simp only [hlive] at hk hsorted
      have hcd := hfront front rest hlive
      obtain rfl | hk := List.mem_cons.mp hk
      · exact hcd
      · exact IsTrans.trans _ _ _ hcd ((List.pairwise_cons.mp hsorted).1 k hk)
  · cases hadded

variable (connect) in
/-- The queue holds the greatest of the connections seen. -/
structure Greatest (maxConnections : Nat) (seen queue : List ι) : Prop where
  length : queue.length = min maxConnections seen.length
  above : ∀ c ∈ seen, c ∉ queue → ∀ k ∈ queue, Below connect c k

/-- As long as no connection is cancelled, a registration keeps the greatest. -/
theorem Greatest.register {maxConnections : Nat} {seen queue : List ι} {cd : ι}
    {r : Registration ι} (h : Greatest connect maxConnections seen queue)
    (hinv : Invariant connect maxConnections seen queue)
    (hr : registerConnection connect maxConnections (fun _ => false) queue (some cd) = .ok r) :
    Greatest connect maxConnections (seen ++ [cd]) r.connectionQueue := by
  have hlen := h.length
  have hrej := hinv.rejected hr
  obtain ⟨hroom, rfl⟩ | ⟨hfull, hroom, rfl⟩ | ⟨hfull, _, _, rfl⟩ |
    ⟨front, rest, hfull, _, hcons, hf, rfl⟩ :=
    registerConnection_cases connect (List.filter_eq_self.mpr (by simp)) rfl hr
  · refine ⟨by simp [List.orderedInsert_length]; omega, fun c hc hout => ?_⟩
    -- nothing has been turned away while there was room
    have hperm : ∀ c ∈ seen, c ∈ queue := by
      intro c hc
      have hsub : queue.Subperm seen := List.subperm_of_subset hinv.nodup hinv.seen
      exact (hsub.perm_of_length_le (by omega)).mem_iff.mpr hc
    simp only [List.mem_orderedInsert, not_or] at hout
    rcases List.mem_append.mp hc with hc | hc
    · exact absurd (hperm c hc) hout.2
    · exact absurd (List.mem_singleton.mp hc) hout.1
  · omega
  · refine ⟨by simp; omega, fun c hc hout k hk => ?_⟩
    rcases List.mem_append.mp hc with hc | hc
    · exact h.above c hc hout k hk
    · obtain rfl := List.mem_singleton.mp hc
      exact hrej rfl k hk
  · subst hcons
    have hfront := (List.pairwise_cons.mp hinv.sorted).1
    have hcd : Below connect front cd := (Std.Total.total front cd).resolve_right hf
    rw [List.length_cons] at hlen hfull
    refine ⟨by simp [List.orderedInsert_length]; omega, fun c hc hout k hk => ?_⟩
    simp only [List.mem_orderedInsert, not_or] at hout
    have hc : c ∈ seen := by simpa [hout.1] using hc
    have hcf : Below connect c front := by
      by_cases heq : c = front
      · subst heq
        exact (Std.Total.total c c).elim id id
      · exact h.above c hc (by simp [heq, hout.2]) front (by simp)
    obtain rfl | hk := (List.mem_orderedInsert _).mp hk
    · exact IsTrans.trans _ _ _ hcf hcd
    · exact IsTrans.trans _ _ _ hcf (hfront k hk)

/-! Runs. -/

theorem registered_append (events events' : List (Event ι)) :
    registered (events ++ events') = registered events ++ registered events' := by
  induction events with
  | nil => rfl
  | cons event events ih =>
    match event with
    | .registerConnection (some cd) => simp [registered, ih]
    | .registerConnection none | .deregisterConnection _ | .cancel _ => simp [registered, ih]

theorem Legal.of_append {events events' : List (Event ι)} (h : Legal connect (events ++ events')) :
    Legal connect events := by
  have hsub : ∀ c ∈ registered events, c ∈ registered (events ++ events') := fun c hc => by
    simp [registered_append, hc]
  exact ⟨(List.nodup_append.mp (registered_append events events' ▸ h.once)).1,
    fun a ha b hb => h.distinct a (hsub a ha) b (hsub b hb)⟩

theorem Legal.not_mem {events : List (Event ι)} {cd : ι}
    (h : Legal connect (events ++ [.registerConnection (some cd)])) : cd ∉ registered events := by
  have hnodup := h.once
  rw [registered_append] at hnodup
  exact fun hmem => (List.nodup_append.mp hnodup).2.2 cd hmem cd (by simp [registered]) rfl

theorem Legal.outranks {events : List (Event ι)} {a b : ι} (h : Legal connect events)
    (ha : a ∈ registered events) (hb : b ∈ registered events) (hne : a ≠ b)
    (hbelow : Below connect a b) : (connect b).Outranks (connect a) :=
  Connect.outranks_of_lt hbelow fun hid => hne (h.distinct a ha b hb hid)

variable (connect) in
theorem registerConnection_some (maxConnections : Nat) (isCancelled : ι → Bool) (queue : List ι)
    (cd : ι) : ∃ r, registerConnection connect maxConnections isCancelled queue (some cd) = .ok r := by
  cases h : registerConnection connect maxConnections isCancelled queue (some cd) with
  | ok r => exact ⟨r, rfl⟩
  | error why =>
    simp only [registerConnection] at h
    repeat' split at h
    all_goals cases h

section Runs

variable [DecidableEq ι]

theorem runQueue_snoc (maxConnections : Nat) (events : List (Event ι)) (event : Event ι) :
    runQueue connect maxConnections (events ++ [event]) =
      step connect maxConnections (runQueue connect maxConnections events) event := by
  simp [runQueue]

/-- The invariant holds after every legal run. -/
theorem invariant_runQueue (maxConnections : Nat) (events : List (Event ι))
    (h : Legal connect events) :
    Invariant connect maxConnections (registered events)
      (runQueue connect maxConnections events).connectionQueue := by
  induction events using List.reverseRecOn with
  | nil => exact ⟨List.nodup_nil, List.Pairwise.nil, Nat.zero_le _, by simp [runQueue]⟩
  | append_singleton events event ih =>
    have hinv := ih h.of_append
    rw [runQueue_snoc, registered_append]
    match event with
    | .registerConnection none => simpa [step, registerConnection, registered] using hinv
    | .cancel c => simpa [step, registered] using hinv
    | .deregisterConnection cd =>
      simp only [step, registered, List.append_nil]
      exact hinv.sublist List.eraseP_sublist
    | .registerConnection (some cd) =>
      obtain ⟨r, hr⟩ := registerConnection_some connect maxConnections
        (runQueue connect maxConnections events).isCancelled
        (runQueue connect maxConnections events).connectionQueue cd
      simp only [step, hr, registered]
      exact hinv.register h.not_mem hr

def RegistersOnly (events : List (Event ι)) : Prop :=
  ∀ event ∈ events, ∃ cd, event = .registerConnection cd

theorem greatest_runQueue (maxConnections : Nat) (events : List (Event ι))
    (h : Legal connect events) (honly : RegistersOnly events) :
    (runQueue connect maxConnections events).cancelled = [] ∧
      Greatest connect maxConnections (registered events)
        (runQueue connect maxConnections events).connectionQueue := by
  induction events using List.reverseRecOn with
  | nil => exact ⟨rfl, by simp [runQueue, registered], by simp [registered]⟩
  | append_singleton events event ih =>
    obtain ⟨hcancelled, hgreatest⟩ := ih h.of_append fun e he => honly e (by simp [he])
    have hinv := invariant_runQueue maxConnections events h.of_append
    rw [runQueue_snoc, registered_append]
    obtain ⟨cd, rfl⟩ := honly event (by simp)
    cases cd with
    | none => exact ⟨hcancelled, by simpa [step, registerConnection, registered] using hgreatest⟩
    | some cd =>
      have hnone : (runQueue connect maxConnections events).isCancelled = fun _ => false := by
        funext c
        simp [QueueState.isCancelled, hcancelled]
      obtain ⟨r, hr⟩ := registerConnection_some connect maxConnections
        (runQueue connect maxConnections events).isCancelled
        (runQueue connect maxConnections events).connectionQueue cd
      simp only [step, hr, registered]
      exact ⟨hcancelled, hgreatest.register hinv (hnone ▸ hr)⟩

/-- The queue of every legal run is sorted, without duplicates and within its bound; the next
registration shuts down a live connection only if it is the least of a full queue and is
outranked by the newcomer, and turns a newcomer away only if all queued connections outrank
it. If the run only registers, the queue holds the greatest of all connections so far. -/
theorem connectionQueue_runs (maxConnections : Nat) (events : List (Event ι))
    (h : Legal connect events) :
    let s := runQueue connect maxConnections events
    s.connectionQueue.Nodup ∧
    s.connectionQueue.Pairwise (fun a b => (connect a).lt (connect b) = true) ∧
    s.connectionQueue.length ≤ maxConnections ∧
    (∀ cd r, Legal connect (events ++ [.registerConnection (some cd)]) →
      registerConnection connect maxConnections s.isCancelled s.connectionQueue (some cd) = .ok r →
        (∀ c ∈ r.shutdown, s.isCancelled c = false →
          s.connectionQueue.length = maxConnections ∧
          (∀ k ∈ s.connectionQueue, s.isCancelled k = false) ∧ c ∈ s.connectionQueue ∧
          (∀ k ∈ s.connectionQueue, k ≠ c → (connect k).Outranks (connect c)) ∧
          (connect cd).Outranks (connect c)) ∧
        (r.added = false → ∀ k ∈ r.connectionQueue, (connect k).Outranks (connect cd))) ∧
    (RegistersOnly events →
      s.connectionQueue.length = min maxConnections (registered events).length ∧
      (∀ k ∈ s.connectionQueue, k ∈ registered events) ∧
      ∀ c ∈ registered events, c ∉ s.connectionQueue → ∀ k ∈ s.connectionQueue,
        (connect k).Outranks (connect c)) := by
  intro s
  have hinv := invariant_runQueue maxConnections events h
  refine ⟨hinv.nodup, hinv.sorted, hinv.bounded, ?_, ?_⟩
  · intro cd r hlegal hr
    have hcd : cd ∈ registered (events ++ [.registerConnection (some cd)]) := by
      simp [registered_append, registered]
    have hqueued : ∀ k ∈ s.connectionQueue,
        k ∈ registered (events ++ [.registerConnection (some cd)]) ∧ k ≠ cd := fun k hk =>
      ⟨by simp [registered_append, hinv.seen k hk],
        fun heq => hlegal.not_mem (heq ▸ hinv.seen k hk)⟩
    constructor
    · intro c hc halive
      obtain ⟨hfull, hlive, hmem, hleast, hnew⟩ := hinv.shutdown hr hc halive
      refine ⟨hfull, hlive, hmem, fun k hk hne => ?_, ?_⟩
      · exact h.outranks (hinv.seen c hmem) (hinv.seen k hk) hne.symm (hleast k hk hne)
      · exact hlegal.outranks (hqueued c hmem).1 hcd (hqueued c hmem).2 hnew
    · intro hadded k hk
      have hbelow := hinv.rejected hr hadded k hk
      have hsub : k ∈ s.connectionQueue := by
        obtain ⟨_, rfl⟩ | ⟨_, _, rfl⟩ | ⟨_, _, _, rfl⟩ | ⟨_, _, _, _, _, _, rfl⟩ :=
          registerConnection_cases connect rfl rfl hr
        · cases hadded
        · cases hadded
        · exact List.mem_of_mem_filter hk
        · cases hadded
      exact hlegal.outranks hcd (hqueued k hsub).1 (hqueued k hsub).2.symm hbelow
  · intro honly
    obtain ⟨_, hgreatest⟩ := greatest_runQueue maxConnections events h honly
    refine ⟨hgreatest.length, hinv.seen, fun c hc hout k hk => ?_⟩
    exact h.outranks hc (hinv.seen k hk) (fun heq => hout (heq ▸ hk))
      (hgreatest.above c hc hout k hk)

/-- Two connections compete for one place, and the one with the smaller id gets it. -/
theorem connectionQueue_runs_pair :
    let connect : Bool → Connect := fun b => if b then ⟨3, 1⟩ else ⟨3, 0⟩
    let events : List (Event Bool) := [.registerConnection (some true),
      .registerConnection (some false)]
    (runQueue connect 1 events).connectionQueue = [false] ∧ ∀ k ∈ [false],
      (connect k).Outranks (connect true) := by
  intro connect events
  have hlegal : Legal connect events := ⟨by decide, by decide⟩
  have honly : RegistersOnly events := by simp [RegistersOnly, events]
  refine ⟨by decide, ?_⟩
  exact ((connectionQueue_runs 1 events hlegal).2.2.2.2 honly).2.2 true (by decide) (by decide)

end Runs

end Queue

end Catena.Rpc
