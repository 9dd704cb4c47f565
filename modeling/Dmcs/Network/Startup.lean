import Mathlib.Algebra.BigOperators.Group.Finset.Basic
import Mathlib.Algebra.Order.Ring.Nat
import Mathlib.Data.Finset.Card
import Dmcs.Lib.TransitionSystem

/-!
# Starting up (`Manager`, `NewServer`, `NewNeighborThread`)

A daemon that connects to a neighbour before the neighbour listens throws an exception.  So the
daemons start in two phases.  In the first one a daemon opens its acceptor and notifies the manager;
the manager counts the notifications, and when there are `system_size` of them it triggers the
second phase, in which the daemons connect to their neighbours.

The manager compares with `==` and triggers the connections it has at that moment.
`neverRefused_iff` and `completes_iff` say for which system sizes the start-up is right, in every
order of steps.

## The invariant

`Inv` ties the phases of the daemons to the manager: the daemons that have notified are those with a
notification on its way or a connection at the manager, and the ones that are triggered are the
first `system_size` of them.  So nobody is triggered before `system_size` daemons have their
acceptors open, and when there are no more daemons than that, all of them listen.  When there are
more, the second phase can begin without a neighbour.

An attempt to connect uses up an endpoint, and every other step brings its process forward, so
`State.work` goes down and every run ends.  Where it ends, all are connected exactly if the manager
waits for as many daemons as there are: for fewer some are never triggered, for more all wait.
-/

namespace Dmcs

namespace Startup

open TransitionSystem

abbrev Endpoint := ℕ

inductive Process
  | manager
  | daemon (id : ℕ)
  deriving DecidableEq

/-- A system to start.  The neighbours are daemons of the system.  `address` is where the acceptor
of a process listens, and `resolve` lists the endpoints that its host and port resolve to, among
them `address`; no other process listens at them. -/
structure Config where
  systemSize : ℕ
  systemSize_pos : 0 < systemSize
  daemons : Finset ℕ
  neighbors : ℕ → List ℕ
  neighbors_mem : ∀ d ∈ daemons, ∀ e ∈ neighbors d, e ∈ daemons
  address : Process → Endpoint
  resolve : Process → List Endpoint
  address_mem : ∀ p, address p ∈ resolve p

/-- A connection that is being set up: the endpoints not tried so far. -/
inductive Connection
  | trying (endpoints : List Endpoint)
  | established
  deriving DecidableEq

/-- What a daemon does.  `threads` are its neighbour threads, with the neighbours' ids; `thrown` is
the exception after the last endpoint of a process refused the connection. -/
inductive Phase
  | off
  | connecting (endpoints : List Endpoint)
  | waiting
  | second (threads : List (ℕ × Connection))
  | thrown (target : Process)
  deriving DecidableEq

/-- The acceptor is open. -/
def Phase.isUp : Phase → Bool
  | .connecting _ | .waiting | .second _ => true
  | _ => false

/-- The daemon has notified the manager. -/
def Phase.notified : Phase → Bool
  | .waiting | .second _ | .thrown (.daemon _) => true
  | _ => false

/-- The daemon has read the trigger. -/
def Phase.triggered : Phase → Bool
  | .second _ | .thrown (.daemon _) => true
  | _ => false

/-- The processes and what is on its way between them: `notifications` to the manager, `triggers` to
the daemons.  `connections` is `connections_vec`. -/
structure State where
  managerUp : Bool
  notifications : List ℕ
  connections : List ℕ
  triggers : List ℕ
  phase : ℕ → Phase

/-- No daemon runs. -/
def State.init (managerUp : Bool) : State := ⟨managerUp, [], [], [], fun _ => .off⟩

namespace State

variable (cfg : Config) (s : State)

def setPhase (d : ℕ) (phase : Phase) : State := { s with phase := Function.update s.phase d phase }

def isUp : Process → Bool
  | .manager => s.managerUp
  | .daemon d => (s.phase d).isUp

/-- `async_connect` to the next endpoint; `none` when it was the last one and refuses. -/
def tryNext (p : Process) : List Endpoint → Option Connection
  | [] => none
  | e :: es =>
      if e = cfg.address p ∧ s.isUp p = true then some .established
      else if es = [] then none
      else some (.trying es)

/-- `NewServer::send_notification_to_manager`, after an attempt to connect. -/
def sendNotificationToManager (d : ℕ) (endpoints : List Endpoint) : State :=
  match s.tryNext cfg .manager endpoints with
  | some .established => { s.setPhase d .waiting with notifications := s.notifications ++ [d] }
  | some (.trying rest) => s.setPhase d (.connecting rest)
  | none => s.setPhase d (.thrown .manager)

/-- `Manager::handle_read_header`, with `trigger_2nd_phase`. -/
def handleReadHeader (d : ℕ) : State :=
  let connections := s.connections ++ [d]
  { s with
    notifications := s.notifications.erase d
    connections := connections
    triggers :=
      if connections.length = cfg.systemSize then s.triggers ++ connections else s.triggers }

/-- `NewServer::handle_read_trigger_message`, with `second_initialization_phase`. -/
def secondInitializationPhase (d : ℕ) : State :=
  { s.setPhase d (.second ((cfg.neighbors d).map
      (fun e => (e, .trying (cfg.resolve (.daemon e)))))) with
    triggers := s.triggers.erase d }

/-- `NewNeighborThread::establish_connections` of a thread, after an attempt to connect. -/
def establishConnections (d : ℕ) (threads : List (ℕ × Connection)) (i e : ℕ)
    (endpoints : List Endpoint) : State :=
  match s.tryNext cfg (.daemon e) endpoints with
  | some c => s.setPhase d (.second (threads.set i (e, c)))
  | none => s.setPhase d (.thrown (.daemon e))

end State

/-- One step of one process. -/
inductive Step (cfg : Config) (s : State) : State → Prop
  | startManager (h : s.managerUp = false) : Step cfg s { s with managerUp := true }
  /-- `first_initialization_phase`, and `connect_to_manager` begins. -/
  | startDaemon {d : ℕ} (hd : d ∈ cfg.daemons) (h : s.phase d = .off) :
      Step cfg s (s.setPhase d (.connecting (cfg.resolve .manager)))
  | connectManager {d : ℕ} {endpoints : List Endpoint} (h : s.phase d = .connecting endpoints) :
      Step cfg s (s.sendNotificationToManager cfg d endpoints)
  | readNotification {d : ℕ} (h : d ∈ s.notifications) : Step cfg s (s.handleReadHeader cfg d)
  | readTrigger {d : ℕ} (h : d ∈ s.triggers) (hwaiting : s.phase d = .waiting) :
      Step cfg s (s.secondInitializationPhase cfg d)
  | connectNeighbor {d i e : ℕ} {threads : List (ℕ × Connection)} {endpoints : List Endpoint}
      (h : s.phase d = .second threads) (hthread : threads[i]? = some (e, .trying endpoints)) :
      Step cfg s (s.establishConnections cfg d threads i e endpoints)

/-- The states reached; the manager may be started before the daemons or in between. -/
def Reached (cfg : Config) (managerUp : Bool) : State → Prop :=
  Relation.ReflTransGen (Step cfg) (State.init managerUp)

/-- No daemon finds a neighbour that refuses its connection. -/
def State.NoneRefused (s : State) : Prop := ∀ d e, s.phase d ≠ .thrown (.daemon e)

/-- All daemons run and are connected to their neighbours. -/
def State.Complete (cfg : Config) (s : State) : Prop :=
  ∀ d ∈ cfg.daemons, ∃ threads, s.phase d = .second threads ∧
    threads.map Prod.fst = cfg.neighbors d ∧ ∀ t ∈ threads, t.2 = .established

variable {cfg : Config} {s s' : State} {d e : ℕ} {p : Process} {phase : Phase}
  {endpoints : List Endpoint}

@[simp] lemma setPhase_phase_self : (s.setPhase d phase).phase d = phase :=
  Function.update_self _ _ _

@[simp] lemma setPhase_connections : (s.setPhase d phase).connections = s.connections := rfl

@[simp] lemma setPhase_triggers : (s.setPhase d phase).triggers = s.triggers := rfl

lemma setPhase_phase_of_ne (h : e ≠ d) : (s.setPhase d phase).phase e = s.phase e :=
  Function.update_of_ne h _ _

/-! ## Who was triggered -/

/-- What holds in every run.  The daemons that are triggered are the first `systemSize` ones that
notified the manager. -/
structure Inv (cfg : Config) (s : State) : Prop where
  off : ∀ d, d ∉ cfg.daemons → s.phase d = .off
  nodup : (s.notifications ++ s.connections).Nodup
  notified : ∀ d, d ∈ s.notifications ++ s.connections ↔ (s.phase d).notified = true
  early : ∀ d, d ∈ s.triggers ∨ (s.phase d).triggered = true →
    d ∈ s.connections.take cfg.systemSize ∧ cfg.systemSize ≤ s.connections.length
  late : cfg.systemSize ≤ s.connections.length → ∀ d ∈ s.connections.take cfg.systemSize,
    d ∈ s.triggers ∨ (s.phase d).triggered = true

lemma inv_init (cfg : Config) (managerUp : Bool) : Inv cfg (State.init managerUp) := by
  refine ⟨fun _ _ => rfl, List.nodup_nil, fun d => ?_, fun d hd => ?_, fun _ d hd => ?_⟩
  · simp [State.init, Phase.notified]
  · simp [State.init, Phase.triggered] at hd
  · simp [State.init] at hd

/-- A daemon that goes on without the manager noticing. -/
lemma Inv.setPhase (h : Inv cfg s) (hd : d ∈ cfg.daemons)
    (hnotified : phase.notified = (s.phase d).notified)
    (htriggered : phase.triggered = (s.phase d).triggered) : Inv cfg (s.setPhase d phase) := by
  have hsame : ∀ e, ((s.setPhase d phase).phase e).notified = (s.phase e).notified ∧
      ((s.setPhase d phase).phase e).triggered = (s.phase e).triggered := by
    intro e
    by_cases he : e = d
    · subst he
      rw [setPhase_phase_self]
      exact ⟨hnotified, htriggered⟩
    · rw [setPhase_phase_of_ne he]
      exact ⟨rfl, rfl⟩
  refine ⟨fun e he => ?_, h.nodup, fun e => ?_, fun e he => ?_, fun hlen e he => ?_⟩
  · rw [setPhase_phase_of_ne (fun heq : e = d => he (heq ▸ hd))]
    exact h.off e he
  · rw [(hsame e).1]
    exact h.notified e
  · rw [(hsame e).2] at he
    exact h.early e he
  · rw [(hsame e).2]
    exact h.late hlen e he

lemma Inv.mem_daemons (h : Inv cfg s) (hd : s.phase d ≠ .off) : d ∈ cfg.daemons := by
  by_contra hnot
  exact hd (h.off d hnot)

/-- A daemon that was triggered notified the manager. -/
lemma Inv.notified_of_triggered (h : Inv cfg s) (hd : d ∈ s.triggers) :
    (s.phase d).notified = true :=
  (h.notified d).mp (List.mem_append_right _ (List.mem_of_mem_take (h.early d (Or.inl hd)).1))

lemma Inv.sendNotificationToManager (h : Inv cfg s) (hd : s.phase d = .connecting endpoints) :
    Inv cfg (s.sendNotificationToManager cfg d endpoints) := by
  have hmem : d ∈ cfg.daemons := h.mem_daemons (by simp [hd])
  rw [State.sendNotificationToManager]
  split
  · have hnew : d ∉ s.notifications ++ s.connections := by
      rw [h.notified, hd]
      simp [Phase.notified]
    have hold : ∀ e, e ≠ d → (s.setPhase d .waiting).phase e = s.phase e :=
      fun e he => setPhase_phase_of_ne he
    refine ⟨fun e he => ?_, ?_, fun e => ?_, fun e he => ?_, fun hlen e he => ?_⟩
    · exact (hold e (fun heq => he (heq ▸ hmem))).trans (h.off e he)
    · have hperm : (s.notifications ++ [d] ++ s.connections).Perm
          (d :: (s.notifications ++ s.connections)) := by
        rw [List.append_assoc]
        exact List.perm_middle
      exact hperm.nodup_iff.mpr (List.nodup_cons.mpr ⟨hnew, h.nodup⟩)
    · by_cases he : e = d
      · subst he
        simp [Phase.notified]
      · rw [show (State.phase _ e) = s.phase e from hold e he, ← h.notified e]
        simp [he]
    · by_cases he' : e = d
      · subst he'
        rcases he with he | he
        · exact absurd (h.notified_of_triggered he) (by simp [hd, Phase.notified])
        · simp [Phase.triggered] at he
      · rw [show (State.phase _ e) = s.phase e from hold e he'] at he
        exact h.early e he
    · have hne : e ≠ d := by
        rintro rfl
        exact hnew (List.mem_append_right _ (List.mem_of_mem_take he))
      rw [show (State.phase _ e) = s.phase e from hold e hne]
      exact h.late hlen e he
  · exact h.setPhase hmem (by rw [hd]; rfl) (by rw [hd]; rfl)
  · exact h.setPhase hmem (by rw [hd]; rfl) (by rw [hd]; rfl)

lemma Inv.handleReadHeader (h : Inv cfg s) (hd : d ∈ s.notifications) :
    Inv cfg (s.handleReadHeader cfg d) := by
  have hmove : (s.notifications.erase d ++ (s.connections ++ [d])).Perm
      (s.notifications ++ s.connections) := by
    have hback : (s.notifications.erase d ++ (s.connections ++ [d])).Perm
        (d :: s.notifications.erase d ++ s.connections) := by
      rw [← List.append_assoc, List.cons_append]
      exact List.perm_append_singleton d _
    exact hback.trans ((List.perm_cons_erase hd).symm.append_right _)
  have hlength : (s.connections ++ [d]).length = s.connections.length + 1 :=
    List.length_append
  refine ⟨h.off, hmove.nodup_iff.mpr h.nodup, fun e => ?_, fun e he => ?_, fun hlen e he => ?_⟩
  · exact hmove.mem_iff.trans (h.notified e)
  · simp only [State.handleReadHeader, hlength] at he ⊢
    by_cases hfull : s.connections.length + 1 = cfg.systemSize
    · rw [if_pos hfull, List.mem_append] at he
      have hnotyet : ¬ cfg.systemSize ≤ s.connections.length := by omega
      have hnew : e ∈ s.connections ++ [d] := by
        rcases he with (he | he) | he
        · exact absurd (h.early e (Or.inl he)).2 hnotyet
        · exact he
        · exact absurd (h.early e (Or.inr he)).2 hnotyet
      rw [List.take_of_length_le (by omega)]
      exact ⟨hnew, hfull.ge⟩
    · rw [if_neg hfull] at he
      obtain ⟨hmem, hle⟩ := h.early e he
      rw [List.take_append_of_le_length hle]
      exact ⟨hmem, by omega⟩
  · simp only [State.handleReadHeader, hlength] at hlen he ⊢
    by_cases hfull : s.connections.length + 1 = cfg.systemSize
    · rw [if_pos hfull]
      exact Or.inl (List.mem_append_right _ (List.mem_of_mem_take he))
    · rw [if_neg hfull]
      have hle : cfg.systemSize ≤ s.connections.length := by omega
      rw [List.take_append_of_le_length hle] at he
      exact h.late hle e he

lemma Inv.secondInitializationPhase (h : Inv cfg s) (hd : d ∈ s.triggers)
    (hwaiting : s.phase d = .waiting) : Inv cfg (s.secondInitializationPhase cfg d) := by
  have hmem : d ∈ cfg.daemons := h.mem_daemons (by simp [hwaiting])
  have hself : ∃ threads, (s.secondInitializationPhase cfg d).phase d = .second threads :=
    ⟨_, setPhase_phase_self⟩
  have hold : ∀ e, e ≠ d → (s.secondInitializationPhase cfg d).phase e = s.phase e :=
    fun e he => setPhase_phase_of_ne he
  obtain ⟨threads, hself⟩ := hself
  refine ⟨fun e he => ?_, h.nodup, fun e => ?_, fun e he => ?_, fun hlen e he => ?_⟩
  · rw [hold e (fun heq => he (heq ▸ hmem))]
    exact h.off e he
  · by_cases he : e = d
    · subst he
      rw [hself]
      exact ⟨fun _ => rfl, fun _ => (h.notified e).mpr (by rw [hwaiting]; rfl)⟩
    · rw [hold e he]
      exact h.notified e
  · by_cases hed : e = d
    · subst hed
      exact h.early e (Or.inl hd)
    · rw [hold e hed] at he
      exact h.early e (he.imp_left List.mem_of_mem_erase)
  · by_cases hed : e = d
    · subst hed
      rw [hself]
      exact Or.inr rfl
    · rw [hold e hed]
      exact (h.late hlen e he).imp_left (List.mem_erase_of_ne hed).mpr

lemma Inv.establishConnections {threads : List (ℕ × Connection)} {i : ℕ} (h : Inv cfg s)
    (hd : s.phase d = .second threads) :
    Inv cfg (s.establishConnections cfg d threads i e endpoints) := by
  have hmem : d ∈ cfg.daemons := h.mem_daemons (by simp [hd])
  rw [State.establishConnections]
  split
  · exact h.setPhase hmem (by rw [hd]; rfl) (by rw [hd]; rfl)
  · exact h.setPhase hmem (by rw [hd]; rfl) (by rw [hd]; rfl)

lemma Inv.step (h : Inv cfg s) (hs : Step cfg s s') : Inv cfg s' := by
  cases hs with
  | startManager _ => exact ⟨h.off, h.nodup, h.notified, h.early, h.late⟩
  | startDaemon hd hoff => exact h.setPhase hd (by rw [hoff]; rfl) (by rw [hoff]; rfl)
  | connectManager hd => exact h.sendNotificationToManager hd
  | readNotification hd => exact h.handleReadHeader hd
  | readTrigger hd hwaiting => exact h.secondInitializationPhase hd hwaiting
  | connectNeighbor hd _ => exact h.establishConnections hd

lemma inv_of_reached {managerUp : Bool} (h : Reached cfg managerUp s) : Inv cfg s :=
  invariant_of_step (inv_init cfg managerUp) (fun _ _ hi hs => hi.step hs) h

/-- Every connection the manager has is one of a daemon. -/
lemma Inv.connections_subset (h : Inv cfg s) : s.connections.toFinset ⊆ cfg.daemons := by
  intro d hd
  apply h.mem_daemons
  intro hoff
  have hnotified := (h.notified d).mp (List.mem_append_right _ (List.mem_toFinset.mp hd))
  rw [hoff] at hnotified
  exact absurd hnotified (by decide)

lemma Inv.length_connections_le (h : Inv cfg s) : s.connections.length ≤ cfg.daemons.card := by
  rw [← List.toFinset_card_of_nodup (List.nodup_append.mp h.nodup).2.1]
  exact Finset.card_le_card h.connections_subset

/-- When a daemon is in the second phase and no more than `systemSize` daemons exist, all of them
have notified the manager. -/
lemma Inv.notified_of_card_le (h : Inv cfg s) (hcard : cfg.daemons.card ≤ cfg.systemSize)
    (hd : (s.phase d).triggered = true) (he : e ∈ cfg.daemons) : (s.phase e).notified = true := by
  have hlen := (h.early d (Or.inr hd)).2
  have hall : s.connections.toFinset = cfg.daemons := by
    apply Finset.eq_of_subset_of_card_le h.connections_subset
    rw [List.toFinset_card_of_nodup (List.nodup_append.mp h.nodup).2.1]
    omega
  rw [← h.notified e]
  rw [← hall, List.mem_toFinset] at he
  exact List.mem_append_right _ he

/-! ## Nobody is refused -/

/-- What is always so of a daemon whose neighbours listen when it is triggered: a connection that is
not established has still to try the neighbour's endpoint. -/
def Phase.Listening (cfg : Config) (d : ℕ) : Phase → Prop
  | .second threads => threads.map Prod.fst = cfg.neighbors d ∧
      ∀ t ∈ threads, ∀ es, t.2 = .trying es → cfg.address (.daemon t.1) ∈ es
  | .thrown (.daemon _) => False
  | _ => True

/-- The same of a daemon that connects to a manager that listens. -/
def Phase.ManagerFirst (cfg : Config) : Phase → Prop
  | .connecting es => cfg.address .manager ∈ es
  | .thrown .manager => False
  | _ => True

/-- What holds of every daemon still does when one of them goes on. -/
lemma forall_setPhase {P : ℕ → Phase → Prop} (h : ∀ e, P e (s.phase e)) (hd : P d phase) (e : ℕ) :
    P e ((s.setPhase d phase).phase e) := by
  by_cases he : e = d
  · subst he
    rw [setPhase_phase_self]
    exact hd
  · rw [setPhase_phase_of_ne he]
    exact h e

/-- An attempt to connect to a process that listens does not use up the endpoints. -/
lemma exists_tryNext (hup : s.isUp p = true) (hmem : cfg.address p ∈ endpoints) :
    ∃ c, s.tryNext cfg p endpoints = some c ∧ ∀ es, c = .trying es → cfg.address p ∈ es := by
  cases endpoints with
  | nil => simp at hmem
  | cons a es =>
      rw [State.tryNext]
      by_cases ha : a = cfg.address p
      · exact ⟨.established, if_pos ⟨ha, hup⟩, fun _ h => by simp at h⟩
      · have hrest : cfg.address p ∈ es := (List.mem_cons.mp hmem).resolve_left (Ne.symm ha)
        refine ⟨.trying es, ?_, fun es' h => by injection h with h; rwa [← h]⟩
        rw [if_neg (fun h => ha h.1), if_neg (List.ne_nil_of_mem hrest)]

/-- The connection a thread has now replaces the one it had. -/
lemma map_fst_set {threads : List (ℕ × Connection)} {i : ℕ} {c c' : Connection}
    (h : threads[i]? = some (e, c)) :
    (threads.set i (e, c')).map Prod.fst = threads.map Prod.fst := by
  have hfst : (threads.map Prod.fst)[i]? = some e := by rw [List.getElem?_map, h]; rfl
  obtain ⟨_, hi⟩ := List.getElem?_eq_some_iff.mp hfst
  rw [List.map_set, ← hi]
  exact List.set_getElem_self _

/-- With no more than `systemSize` daemons, or without connections to others, the neighbours of a
triggered daemon listen. -/
lemma Inv.isUp_neighbor {threads : List (ℕ × Connection)} (h : Inv cfg s)
    (hsize : cfg.daemons.card ≤ cfg.systemSize ∨
      ∀ d ∈ cfg.daemons, ∀ e ∈ cfg.neighbors d, e = d)
    (hlisten : ∀ d, (s.phase d).Listening cfg d) (hd : s.phase d = .second threads)
    (he : e ∈ cfg.neighbors d) : s.isUp (.daemon e) = true := by
  have hmem : d ∈ cfg.daemons := h.mem_daemons (by simp [hd])
  rcases hsize with hcard | hself
  · have hnotified := h.notified_of_card_le hcard (d := d) (by rw [hd]; rfl)
      (cfg.neighbors_mem d hmem e he)
    have hlistens := hlisten e
    rw [State.isUp]
    cases hphase : s.phase e with
    | off => simp [hphase, Phase.notified] at hnotified
    | connecting es => rfl
    | waiting => rfl
    | second threads => rfl
    | thrown target =>
        rw [hphase] at hnotified hlistens
        cases target with
        | manager => simp [Phase.notified] at hnotified
        | daemon _ => exact hlistens.elim
  · rw [hself d hmem e he, State.isUp, hd]
    rfl

lemma listening_step (h : Inv cfg s)
    (hsize : cfg.daemons.card ≤ cfg.systemSize ∨
      ∀ d ∈ cfg.daemons, ∀ e ∈ cfg.neighbors d, e = d)
    (hlisten : ∀ d, (s.phase d).Listening cfg d) (hs : Step cfg s s') (d : ℕ) :
    (s'.phase d).Listening cfg d := by
  have hset : ∀ d phase, phase.Listening cfg d →
      ∀ e, ((s.setPhase d phase).phase e).Listening cfg e := fun _ _ hd =>
    forall_setPhase (P := Phase.Listening cfg) hlisten hd
  cases hs with
  | startManager _ => exact hlisten d
  | startDaemon _ _ => exact hset _ (.connecting _) trivial d
  | connectManager _ =>
      rw [State.sendNotificationToManager]
      split
      · exact hset _ .waiting trivial d
      · exact hset _ (.connecting _) trivial d
      · exact hset _ (.thrown .manager) trivial d
  | readNotification _ => exact hlisten d
  | readTrigger _ _ =>
      refine hset _ (.second _) ⟨?_, fun t ht es hes => ?_⟩ d
      · rw [List.map_map]
        exact List.map_id _
      · obtain ⟨e, _, rfl⟩ := List.mem_map.mp ht
        injection hes with hes
        exact hes ▸ cfg.address_mem _
  | @connectNeighbor d' i e threads es hphase hthread =>
      have hd' := hlisten d'
      rw [hphase] at hd'
      obtain ⟨hfst, htrying⟩ := hd'
      have hin : (e, Connection.trying es) ∈ threads := List.mem_of_getElem? hthread
      have he : e ∈ cfg.neighbors d' := hfst ▸ List.mem_map.mpr ⟨_, hin, rfl⟩
      obtain ⟨c, hc, hrest⟩ := exists_tryNext (h.isUp_neighbor hsize hlisten hphase he)
        (htrying _ hin es rfl)
      rw [State.establishConnections, hc]
      refine hset _ (.second _) ⟨?_, fun t ht es' hes' => ?_⟩ d
      · rw [map_fst_set hthread, hfst]
      · rcases List.mem_or_eq_of_mem_set ht with ht | rfl
        · exact htrying t ht es' hes'
        · exact hrest es' hes'

lemma listening_of_reached {managerUp : Bool}
    (hsize : cfg.daemons.card ≤ cfg.systemSize ∨
      ∀ d ∈ cfg.daemons, ∀ e ∈ cfg.neighbors d, e = d)
    (h : Reached cfg managerUp s) (d : ℕ) : (s.phase d).Listening cfg d := by
  have hboth : Inv cfg s ∧ ∀ d, (s.phase d).Listening cfg d :=
    invariant_of_step (I := fun s => Inv cfg s ∧ ∀ d, (s.phase d).Listening cfg d)
      ⟨inv_init cfg managerUp, fun _ => trivial⟩
      (fun _ _ hi hs => ⟨hi.1.step hs, listening_step hi.1 hsize hi.2 hs⟩) h
  exact hboth.2 d

lemma managerFirst_step (h : s.managerUp = true ∧ ∀ d, (s.phase d).ManagerFirst cfg)
    (hs : Step cfg s s') : s'.managerUp = true ∧ ∀ d, (s'.phase d).ManagerFirst cfg := by
  obtain ⟨hup, hfirst⟩ := h
  have hset : ∀ d phase, phase.ManagerFirst cfg →
      ∀ e, ((s.setPhase d phase).phase e).ManagerFirst cfg := fun _ _ hd =>
    forall_setPhase (P := fun _ => Phase.ManagerFirst cfg) hfirst hd
  cases hs with
  | startManager hdown => exact absurd hup (by simp [hdown])
  | startDaemon _ _ => exact ⟨hup, hset _ (.connecting _) (cfg.address_mem .manager)⟩
  | @connectManager d es hphase =>
      have hd := hfirst d
      rw [hphase] at hd
      obtain ⟨c, hc, hrest⟩ := exists_tryNext (p := .manager) hup hd
      rw [State.sendNotificationToManager, hc]
      cases c with
      | trying rest => exact ⟨hup, hset _ (.connecting _) (hrest rest rfl)⟩
      | established => exact ⟨hup, hset _ .waiting trivial⟩
  | readNotification _ => exact ⟨hup, hfirst⟩
  | readTrigger _ _ => exact ⟨hup, hset _ (.second _) trivial⟩
  | connectNeighbor _ _ =>
      rw [State.establishConnections]
      split
      · exact ⟨hup, hset _ (.second _) trivial⟩
      · exact ⟨hup, hset _ (.thrown (.daemon _)) trivial⟩

/-! ## A run in which a neighbour refuses -/

@[simp] lemma setPhase_setPhase {phase' : Phase} :
    (s.setPhase d phase).setPhase d phase' = s.setPhase d phase' := by
  simp [State.setPhase]

/-- A daemon connects to a manager that listens. -/
lemma run_notifies (hup : s.managerUp = true) (hphase : s.phase d = .connecting endpoints)
    (hmem : cfg.address .manager ∈ endpoints) :
    Relation.ReflTransGen (Step cfg) s
      { s.setPhase d .waiting with notifications := s.notifications ++ [d] } := by
  induction endpoints generalizing s with
  | nil => simp at hmem
  | cons a es ih =>
      have hstep : Step cfg s _ := Step.connectManager hphase
      rw [State.sendNotificationToManager, State.tryNext] at hstep
      by_cases ha : a = cfg.address .manager
      · rw [if_pos ⟨ha, hup⟩] at hstep
        exact Relation.ReflTransGen.single hstep
      · have hrest : cfg.address .manager ∈ es := (List.mem_cons.mp hmem).resolve_left (Ne.symm ha)
        rw [if_neg (fun h => ha h.1), if_neg (List.ne_nil_of_mem hrest)] at hstep
        have hgoes := ih (s := s.setPhase d (.connecting es)) hup setPhase_phase_self hrest
        rw [setPhase_setPhase] at hgoes
        exact hgoes.head hstep

/-- A thread tries all endpoints of a neighbour that does not listen. -/
lemma run_throws {threads : List (ℕ × Connection)} {i : ℕ} (hne : e ≠ d)
    (hdown : (s.phase e).isUp = false) (hphase : s.phase d = .second threads)
    (hthread : threads[i]? = some (e, .trying endpoints)) :
    Relation.ReflTransGen (Step cfg) s (s.setPhase d (.thrown (.daemon e))) := by
  induction endpoints generalizing s threads with
  | nil =>
      have hstep : Step cfg s _ := Step.connectNeighbor hphase hthread
      exact Relation.ReflTransGen.single hstep
  | cons a es ih =>
      have hstep : Step cfg s _ := Step.connectNeighbor hphase hthread
      rw [State.establishConnections, State.tryNext,
        if_neg (fun h => Bool.false_ne_true (hdown.symm.trans h.2))] at hstep
      by_cases hes : es = []
      · rw [if_pos hes] at hstep
        exact Relation.ReflTransGen.single hstep
      · rw [if_neg hes] at hstep
        have hgoes := ih (s := s.setPhase d (.second (threads.set i (e, .trying es))))
          (by rw [setPhase_phase_of_ne hne]; exact hdown) setPhase_phase_self
          (List.getElem?_set_self (List.getElem?_eq_some_iff.mp hthread).1)
        rw [setPhase_setPhase] at hgoes
        exact hgoes.head hstep

/-- Daemons that start one after another and notify the manager, while no other one starts. -/
lemma run_first {l : List ℕ} (hl : l.Nodup) (hsub : ∀ d ∈ l, d ∈ cfg.daemons)
    (hlen : l.length ≤ cfg.systemSize) :
    ∃ s, Reached cfg true s ∧ s.managerUp = true ∧ s.notifications = [] ∧ s.connections = l ∧
      (l.length = cfg.systemSize → s.triggers = l) ∧ (l.length < cfg.systemSize → s.triggers = []) ∧
      ∀ d, s.phase d = if d ∈ l then .waiting else .off := by
  induction l using List.reverseRecOn with
  | nil =>
      have hpos := cfg.systemSize_pos
      exact ⟨State.init true, Relation.ReflTransGen.refl, rfl, rfl, rfl, fun h => absurd h (by
        rw [List.length_nil]; omega), fun _ => rfl, fun _ => rfl⟩
  | append_singleton l d ih =>
      rw [List.length_append, List.length_singleton] at hlen
      have hd : d ∉ l := fun hd => (List.nodup_append.mp hl).2.2 d hd d (by simp) rfl
      obtain ⟨s, hreached, hup, hnotifications, hconnections, -, hnone, hphase⟩ :=
        ih (List.nodup_append.mp hl).1 (fun e he => hsub e (List.mem_append_left _ he)) (by omega)
      have hoff : s.phase d = .off := by rw [hphase, if_neg hd]
      have hstart := Step.startDaemon (hsub d (by simp)) hoff
      have hnotify := run_notifies (s := s.setPhase d (.connecting (cfg.resolve .manager))) hup
        setPhase_phase_self (cfg.address_mem .manager)
      rw [setPhase_setPhase] at hnotify
      have hread : Step cfg
          { s.setPhase d .waiting with notifications := s.notifications ++ [d] } _ :=
        Step.readNotification (List.mem_append_right _ (List.mem_singleton_self d))
      refine ⟨_, ((hreached.tail hstart).trans hnotify).tail hread, hup, ?_, ?_, ?_, ?_, ?_⟩
      · simp [State.handleReadHeader, hnotifications]
      · simp [State.handleReadHeader, hconnections]
      · intro hfull
        rw [List.length_append, List.length_singleton] at hfull
        simp [State.handleReadHeader, hconnections, hnone (by omega), hfull]
      · intro hmore
        rw [List.length_append, List.length_singleton] at hmore
        simp [State.handleReadHeader, hconnections, hnone (by omega), hmore.ne]
      · intro e
        by_cases he : e = d
        · subst he
          simp [State.handleReadHeader]
        · simp [State.handleReadHeader, setPhase_phase_of_ne he, hphase, he]

/-- When more daemons than `systemSize` exist, the second phase can begin without a neighbour. -/
lemma exists_refused (hcard : cfg.systemSize < cfg.daemons.card) (hd : d ∈ cfg.daemons)
    (he : e ∈ cfg.neighbors d) (hne : e ≠ d) :
    ∃ s, Reached cfg true s ∧ s.phase d = .thrown (.daemon e) := by
  have hpos := cfg.systemSize_pos
  have hmem : e ∈ cfg.daemons := cfg.neighbors_mem d hd e he
  obtain ⟨A, hdA, hA, hcardA⟩ := Finset.exists_subsuperset_card_eq
    (s := {d}) (t := cfg.daemons.erase e) (n := cfg.systemSize)
    (by simpa using ⟨Ne.symm hne, hd⟩) (by rw [Finset.card_singleton]; omega)
    (by rw [Finset.card_erase_of_mem hmem]; omega)
  have hd' : d ∈ A.toList := by simpa using hdA
  have he' : e ∉ A.toList := fun h => by simpa using hA (Finset.mem_toList.mp h)
  have hA' : ∀ c ∈ A.toList, c ∈ cfg.daemons := fun c hc =>
    Finset.mem_of_mem_erase (hA (Finset.mem_toList.mp hc))
  obtain ⟨s, hreached, -, -, -, htriggers, -, hphase⟩ := run_first A.nodup_toList hA'
    (by rw [Finset.length_toList]; exact hcardA.le)
  have htrigger : Step cfg s _ := Step.readTrigger (d := d)
    (by rw [htriggers (by rw [Finset.length_toList]; exact hcardA)]; exact hd')
    (by rw [hphase, if_pos hd'])
  obtain ⟨i, hi⟩ := List.getElem?_of_mem he
  have hdown : ((s.secondInitializationPhase cfg d).phase e).isUp = false :=
    congrArg Phase.isUp ((setPhase_phase_of_ne hne).trans ((hphase e).trans (if_neg he')))
  have hthread : ((cfg.neighbors d).map
      (fun e => (e, Connection.trying (cfg.resolve (.daemon e)))))[i]? =
        some (e, .trying (cfg.resolve (.daemon e))) := by
    rw [List.getElem?_map, hi]
    rfl
  have hrun : Relation.ReflTransGen (Step cfg) (s.secondInitializationPhase cfg d) _ :=
    run_throws hne hdown setPhase_phase_self hthread
  exact ⟨_, (hreached.tail htrigger).trans hrun, setPhase_phase_self⟩

/-- In every order of steps no daemon finds a neighbour that refuses its connection, exactly when no
more daemons exist than the manager waits for, or when none connects to another one. -/
theorem neverRefused_iff (cfg : Config) :
    (∀ managerUp s, Reached cfg managerUp s → s.NoneRefused) ↔
      cfg.daemons.card ≤ cfg.systemSize ∨
        ∀ d ∈ cfg.daemons, ∀ e ∈ cfg.neighbors d, e = d := by
  constructor
  · intro hnever
    by_contra hnot
    push Not at hnot
    obtain ⟨hcard, d, hd, e, he, hne⟩ := hnot
    obtain ⟨s, hreached, hthrown⟩ := exists_refused hcard hd he hne
    exact hnever true s hreached d e hthrown
  · intro hsize managerUp s hreached d e hthrown
    have hlisten := listening_of_reached hsize hreached d
    rw [hthrown] at hlisten
    exact hlisten

/-- Three daemons in a ring.  Every host resolves to two endpoints, at the first of which nobody
listens. -/
def ringOfThree (systemSize : ℕ) (hpos : 0 < systemSize) : Config where
  systemSize := systemSize
  systemSize_pos := hpos
  daemons := {0, 1, 2}
  neighbors d := [(d + 1) % 3]
  neighbors_mem := by decide
  address
    | .manager => 0
    | .daemon d => 2 * (d + 1)
  resolve
    | .manager => [1, 0]
    | .daemon d => [2 * (d + 1) + 1, 2 * (d + 1)]
  address_mem p := by
    cases p with
    | manager => exact List.mem_cons_of_mem _ List.mem_cons_self
    | daemon d => exact List.mem_cons_of_mem _ List.mem_cons_self

/-- The ring is safe when the manager waits for all three daemons, and not when it waits for two. -/
theorem neverRefused_iff_ringOfThree :
    (∀ managerUp s, Reached (ringOfThree 3 (by decide)) managerUp s → s.NoneRefused) ∧
      ¬ ∀ managerUp s, Reached (ringOfThree 2 (by decide)) managerUp s → s.NoneRefused := by
  refine ⟨(neverRefused_iff _).mpr (Or.inl (by decide)), fun hnever => ?_⟩
  rcases (neverRefused_iff _).mp hnever with hcard | hself
  · exact absurd hcard (by decide)
  · exact absurd (hself 0 (by decide) 1 (by decide)) (by decide)

/-! ## The start-up ends -/

def Connection.work : Connection → ℕ
  | .trying es => es.length + 1
  | .established => 0

lemma work_trying : (Connection.trying endpoints).work = endpoints.length + 1 := rfl

lemma work_established : Connection.established.work = 0 := rfl

/-- What a daemon has to do from the trigger on. -/
def Config.work (cfg : Config) (d : ℕ) : ℕ :=
  ((cfg.neighbors d).map (fun e => (cfg.resolve (.daemon e)).length + 1)).sum + 1

def Phase.work (cfg : Config) (d : ℕ) : Phase → ℕ
  | .off => (cfg.resolve .manager).length + 3 + cfg.work d
  | .connecting es => es.length + 2 + cfg.work d
  | .waiting => cfg.work d
  | .second threads => (threads.map (fun t => t.2.work)).sum
  | .thrown _ => 0

/-- What the manager has to do. -/
def State.managerWork (s : State) : ℕ := s.notifications.length + (!s.managerUp).toNat

/-- A bound on the steps that are left. -/
def State.work (cfg : Config) (s : State) : ℕ :=
  ∑ d ∈ cfg.daemons, (s.phase d).work cfg d + s.managerWork

lemma sum_set_add {α : Type*} (w : α → ℕ) {l : List α} {i : ℕ} {a b : α} (h : l[i]? = some a) :
    ((l.set i b).map w).sum + w a = (l.map w).sum + w b := by
  induction l generalizing i with
  | nil => simp at h
  | cons c l ih =>
      cases i with
      | zero =>
          rw [List.getElem?_cons_zero, Option.some.injEq] at h
          subst h
          simp only [List.set_cons_zero, List.map_cons, List.sum_cons]
          omega
      | succ i =>
          rw [List.getElem?_cons_succ] at h
          have hrest := ih h
          simp only [List.set_cons_succ, List.map_cons, List.sum_cons]
          omega

/-- A step of one daemon, with what it does to the manager. -/
lemma work_lt (hd : d ∈ cfg.daemons) (hphase : s'.phase = Function.update s.phase d phase)
    (h : phase.work cfg d + s'.managerWork < (s.phase d).work cfg d + s.managerWork) :
    s'.work cfg < s.work cfg := by
  rw [State.work, State.work, hphase, ← Finset.add_sum_erase cfg.daemons _ hd,
    ← Finset.add_sum_erase cfg.daemons (fun e => (s.phase e).work cfg e) hd,
    Function.update_self]
  have hrest : ∑ e ∈ cfg.daemons.erase d, (Function.update s.phase d phase e).work cfg e =
      ∑ e ∈ cfg.daemons.erase d, (s.phase e).work cfg e := by
    refine Finset.sum_congr rfl (fun e he => ?_)
    rw [Function.update_of_ne (Finset.ne_of_mem_erase he)]
  omega

/-- A failed attempt uses up one endpoint. -/
lemma work_tryNext {c : Connection} (h : s.tryNext cfg p endpoints = some c) :
    c.work < endpoints.length + 1 := by
  cases endpoints with
  | nil => simp [State.tryNext] at h
  | cons a es =>
      rw [State.tryNext] at h
      split_ifs at h with hup hes
      · rw [← Option.some.inj h]
        exact Nat.succ_pos _
      · rw [← Option.some.inj h]
        exact Nat.succ_lt_succ (Nat.lt_succ_self _)

lemma managerWork_notify :
    ({ s.setPhase d phase with notifications := s.notifications ++ [d] } : State).managerWork =
      s.managerWork + 1 := by
  simp only [State.managerWork, State.setPhase, List.length_append, List.length_singleton]
  omega

@[simp] lemma managerWork_setPhase : (s.setPhase d phase).managerWork = s.managerWork := rfl

lemma work_step (h : Inv cfg s) (hs : Step cfg s s') : s'.work cfg < s.work cfg := by
  -- every step moves one daemon or one connection on, or handles one notification
  cases hs with
  | startManager hdown => simp [State.work, State.managerWork, hdown]
  | startDaemon hd hoff =>
      refine work_lt hd rfl ?_
      rw [hoff, managerWork_setPhase]
      simp only [Phase.work]
      omega
  | connectManager hphase =>
      have hd := h.mem_daemons (by rw [hphase]; simp)
      rw [State.sendNotificationToManager]
      split
      · refine work_lt hd rfl ?_
        rw [hphase, managerWork_notify]
        simp only [Phase.work]
        omega
      · next hrest =>
        have hless := work_tryNext hrest
        refine work_lt hd rfl ?_
        rw [hphase, managerWork_setPhase]
        simp only [Phase.work, Connection.work] at hless ⊢
        omega
      · refine work_lt hd rfl ?_
        rw [hphase, managerWork_setPhase]
        simp only [Phase.work]
        omega
  | readNotification hd =>
      have hlen := List.length_erase_of_mem hd
      have hpos := List.length_pos_of_mem hd
      simp only [State.work, State.managerWork, State.handleReadHeader, hlen]
      omega
  | readTrigger _ hphase =>
      refine work_lt (h.mem_daemons (by rw [hphase]; simp)) rfl ?_
      rw [hphase]
      simp only [Phase.work, List.map_map, Function.comp_def, Connection.work, Config.work]
      exact Nat.add_lt_add_right (Nat.lt_succ_self _) _
  | @connectNeighbor d i e threads es hphase hthread =>
      have hd := h.mem_daemons (by rw [hphase]; simp)
      have hset := fun c => sum_set_add (fun t : ℕ × Connection => t.2.work) (b := (e, c)) hthread
      rw [State.establishConnections]
      split
      · next c hc =>
        have hless := work_tryNext hc
        have hnew := hset c
        refine work_lt hd rfl ?_
        rw [hphase, managerWork_setPhase]
        simp only [Phase.work, work_trying] at hnew ⊢
        omega
      · have hold := hset .established
        refine work_lt hd rfl ?_
        rw [hphase, managerWork_setPhase]
        simp only [Phase.work, work_trying, work_established] at hold ⊢
        omega

/-- No run of the start-up is infinite. -/
lemma not_infinite (managerUp : Bool) (run : ℕ → State) (hinit : run 0 = State.init managerUp) :
    ¬ ∀ n, Step cfg (run n) (run (n + 1)) := by
  intro hrun
  have hinv : ∀ n, Inv cfg (run n) := by
    intro n
    induction n with
    | zero => exact hinit ▸ inv_init cfg managerUp
    | succ n ih => exact ih.step (hrun n)
  have hless : ∀ s s', Inv cfg s ∧ Step cfg s s' → s'.work cfg < s.work cfg :=
    fun _ _ hs => work_step hs.1 hs.2
  exact not_infinite_of_measure (State.work cfg) hless run (fun n => ⟨hinv n, hrun n⟩)

lemma exists_stuck (cfg : Config) (managerUp : Bool) :
    ∃ s, Reached cfg managerUp s ∧ ∀ s', ¬ Step cfg s s' := by
  have hless : ∀ s s', Inv cfg s ∧ Step cfg s s' → s'.work cfg < s.work cfg :=
    fun _ _ hs => work_step hs.1 hs.2
  obtain ⟨s, hrun, hstuck⟩ :=
    exists_stuck_of_measure (State.work cfg) hless (State.init managerUp)
  have hreached : Reached cfg managerUp s :=
    Relation.ReflTransGen.mono (fun _ _ hs => hs.2) _ _ hrun
  exact ⟨s, hreached, fun s' hs => hstuck s' ⟨inv_of_reached hreached, hs⟩⟩

/-! ## The start-up completes -/

/-- A complete system has as many daemons as the manager waited for. -/
lemma Inv.card_of_complete (h : Inv cfg s) (hcomplete : s.Complete cfg) (hd : d ∈ cfg.daemons) :
    cfg.daemons.card = cfg.systemSize := by
  have hearly : ∀ e ∈ cfg.daemons,
      e ∈ s.connections.take cfg.systemSize ∧ cfg.systemSize ≤ s.connections.length := by
    intro e he
    obtain ⟨threads, hphase, -⟩ := hcomplete e he
    exact h.early e (Or.inr (by rw [hphase]; rfl))
  have hnodup : (s.connections.take cfg.systemSize).Nodup :=
    (List.nodup_append.mp h.nodup).2.1.sublist (List.take_sublist _ _)
  apply le_antisymm
  · calc cfg.daemons.card ≤ (s.connections.take cfg.systemSize).toFinset.card :=
          Finset.card_le_card (fun e he => List.mem_toFinset.mpr (hearly e he).1)
      _ = (s.connections.take cfg.systemSize).length := List.toFinset_card_of_nodup hnodup
      _ ≤ cfg.systemSize := List.length_take_le _ _
  · exact (hearly d hd).2.trans h.length_connections_le

/-- A system that cannot go on after the manager was started first is complete, when it has as many
daemons as the manager waits for. -/
lemma complete_of_stuck (hcard : cfg.daemons.card = cfg.systemSize) (hreached : Reached cfg true s)
    (hstuck : ∀ s', ¬ Step cfg s s') : s.Complete cfg := by
  have h := inv_of_reached hreached
  have hlisten := listening_of_reached (Or.inl hcard.le) hreached
  have hfirst : s.managerUp = true ∧ ∀ d, (s.phase d).ManagerFirst cfg :=
    invariant_of_step (I := fun s => s.managerUp = true ∧ ∀ d, (s.phase d).ManagerFirst cfg)
      ⟨rfl, fun _ => trivial⟩ (fun _ _ hi hs => managerFirst_step hi hs) hreached
  have hread : s.notifications = [] :=
    List.eq_nil_iff_forall_not_mem.mpr (fun d hd => hstuck _ (Step.readNotification hd))
  -- Whoever is neither off nor thrown has notified the manager, which has read it.
  have hconnected : ∀ d ∈ cfg.daemons, d ∈ s.connections := by
    intro d hd
    have hnotified : (s.phase d).notified = true := by
      have hd₁ := hlisten d
      have hd₂ := hfirst.2 d
      cases hphase : s.phase d with
      | off => exact absurd (Step.startDaemon hd hphase) (hstuck _)
      | connecting es => exact absurd (Step.connectManager hphase) (hstuck _)
      | waiting => rfl
      | second threads => rfl
      | thrown target =>
          rw [hphase] at hd₁ hd₂
          cases target with
          | manager => exact hd₂.elim
          | daemon _ => exact hd₁.elim
    rw [← h.notified d, hread, List.nil_append] at hnotified
    exact hnotified
  have hlen : s.connections.length = cfg.systemSize := by
    apply le_antisymm (hcard ▸ h.length_connections_le)
    rw [← hcard, ← List.toFinset_card_of_nodup (List.nodup_append.mp h.nodup).2.1]
    exact Finset.card_le_card (fun d hd => List.mem_toFinset.mpr (hconnected d hd))
  intro d hd
  have hlate := h.late hlen.ge d (by rw [List.take_of_length_le hlen.le]; exact hconnected d hd)
  have hnotified : (s.phase d).notified = true :=
    (h.notified d).mp (List.mem_append_right _ (hconnected d hd))
  have hd₁ := hlisten d
  cases hphase : s.phase d with
  | off => simp [hphase, Phase.notified] at hnotified
  | connecting es => simp [hphase, Phase.notified] at hnotified
  | waiting =>
      rw [hphase] at hlate
      exact absurd (Step.readTrigger (hlate.resolve_right (by decide)) hphase) (hstuck _)
  | second threads =>
      rw [hphase] at hd₁
      refine ⟨threads, rfl, hd₁.1, fun t ht => ?_⟩
      obtain ⟨i, hi⟩ := List.getElem?_of_mem ht
      obtain ⟨e, c⟩ := t
      cases c with
      | trying es => exact absurd (Step.connectNeighbor hphase hi) (hstuck _)
      | established => rfl
  | thrown target =>
      rw [hphase] at hd₁ hnotified
      cases target with
      | manager => simp [Phase.notified] at hnotified
      | daemon _ => exact hd₁.elim

/-- After the manager was started first, every run ends, and it ends with all daemons connected to
their neighbours exactly when there are as many daemons as the manager waits for. -/
theorem completes_iff (cfg : Config) :
    (∀ run : ℕ → State, run 0 = State.init true → ¬ ∀ n, Step cfg (run n) (run (n + 1))) ∧
    ((∀ s, Reached cfg true s → (∀ s', ¬ Step cfg s s') → s.Complete cfg) ↔
      cfg.daemons.card = cfg.systemSize ∨ cfg.daemons = ∅) := by
  refine ⟨not_infinite true, fun hcompletes => ?_, fun hsize s hreached hstuck => ?_⟩
  · obtain ⟨s, hreached, hstuck⟩ := exists_stuck cfg true
    rcases cfg.daemons.eq_empty_or_nonempty with hempty | ⟨d, hd⟩
    · exact Or.inr hempty
    · exact Or.inl ((inv_of_reached hreached).card_of_complete
        (hcompletes s hreached hstuck) hd)
  · rcases hsize with hcard | hempty
    · exact complete_of_stuck hcard hreached hstuck
    · intro d hd
      rw [hempty] at hd
      exact absurd hd (Finset.notMem_empty d)

/-- The start-up of the ring completes when the manager waits for three daemons, and not when it
waits for four. -/
theorem completes_iff_ringOfThree :
    (∀ s, Reached (ringOfThree 3 (by decide)) true s →
      (∀ s', ¬ Step (ringOfThree 3 (by decide)) s s') →
        s.Complete (ringOfThree 3 (by decide))) ∧
      ¬ ∀ s, Reached (ringOfThree 4 (by decide)) true s →
        (∀ s', ¬ Step (ringOfThree 4 (by decide)) s s') →
          s.Complete (ringOfThree 4 (by decide)) := by
  refine ⟨(completes_iff _).2.mpr (Or.inl (by decide)), fun hcomplete => ?_⟩
  rcases (completes_iff _).2.mp hcomplete with hcard | hempty
  · exact absurd hcard (by decide)
  · exact absurd hempty (by decide)

end Startup

end Dmcs
