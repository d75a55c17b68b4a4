import WebTransportD.Daemon.Accounting

set_option autoImplicit false

namespace WebTransportD.SessionsApart

open Session ChildSpawn TransportPeer Execution CrossTalk Attribution Accounting
open Descriptors (Table)
open DescriptorOwnership (ConnectCalls Ledger PeerFds Settled catCalls orderStep
  spawnedOf)
open PeerRegistry (Server ServerStep emptyServer serverStep setAt setAt_apply)
open SessionIsolation

theorem spawn_filed {w : World} {records : Nat -> PeerFds} (filed : Filed w records)
    (unused : ∀ id < w.server.allocations, w.child id ≠ w.spawned) (limit : Nat)
    (calls : ConnectCalls) (stream : Nat) (env : ConnectEnv)
    (malloc : env.malloc = calls.malloc) (spawn : env.spawn = (w.spawn limit calls).2) :
    ∃ fresh, Ledger (w.spawn limit calls).1.table
        (fun k => (Function.update records w.spawned fresh k).child) ∧
      ∃ goal, exec orderStep fresh (wtSessionCb none (.connect stream env)).2.1 = some goal ∧
        Settled goal (wtSessionCb none (.connect stream env)).1 := by
  have gone := filed.unused w.spawned unused
  cases granted : calls.malloc with
  | false =>
    have failed : wtSessionCb none (.connect stream env) = (none, [], -1) := by
      simp [wtSessionCb, peerCreate, malloc, granted]
    refine ⟨records w.spawned, ?_, records w.spawned, ?_⟩
    on_goal 2 =>
      rw [failed]
      exact ⟨rfl, gone⟩
    rw [Function.update_eq_self, World.spawn, granted]
    exact filed.ledger
  | true =>
    have made : w.spawn limit calls =
        ({ w with
           table := (wtdChildSpawn limit w.spawned calls.spawn w.table).table
           spawned := w.spawned + 1 },
          spawnedOf (wtdChildSpawn limit w.spawned calls.spawn w.table)) := by
      simp [World.spawn, granted]
    refine ⟨{ child := (wtdChildSpawn limit w.spawned calls.spawn w.table).child, output := none },
      ?_, ?_⟩
    · have opened := filed.ledger.spawn limit w.spawned calls.spawn gone.1
      rw [made, DescriptorOwnership.children_update]
      exact opened
    · rw [made] at spawn
      rcases DescriptorOwnership.spawnedOf_cases limit w.spawned calls.spawn w.table
        calls.positive with ⟨failed, child⟩ | ⟨spawned, succeeded, child⟩
      · have refused : wtSessionCb none (.connect stream env) = (none, [], -1) := by
          simp [wtSessionCb, peerCreate, spawn, failed]
        rw [refused, child]
        exact ⟨_, rfl, DescriptorOwnership.gone_noChild⟩
      · rw [child]
        exact DescriptorOwnership.connect_inOrder stream env spawned (malloc.trans granted)
          (spawn.trans succeeded)

theorem silent_attributed (child : Nat) (session : SessionId) (effects : List Effect)
    (replies : effects.any isReply = false) (writes : effects.any ChildDeath.isWrite = false) :
    effects.flatMap (attributed child session) = [] := by
  simp only [List.any_eq_false] at replies writes
  apply List.flatMap_eq_nil_iff.mpr
  intro e member
  have reply := replies e member
  have write := writes e member
  rcases e with _ | ⟨_ | _ | _ | _ | _⟩ | _ | _ | _ | _ | _ | _ <;>
    simp_all [isReply, ChildDeath.isWrite, attributed]

-- A connect on a new stream: it leaves `result` as the peer it may have allocated, for which
-- `spawned` counts one more spawn.
structure Connected (w : World) (cnx stream : Nat) (t : Server) (result : Option WtdPeer)
    (spawned : Nat) : Prop where
  fresh : w.session cnx stream = none
  listed : Listed t
  values : ∀ id, valueAt t.heap id =
    if id = w.server.allocations then result else valueAt w.server.heap id
  empty : ∀ p, result = some p ->
    p.session.outbound = [] ∧ p.dgrams = [] ∧ p.dataStreamId = uint64Max
  counted : w.spawned ≤ spawned
  named : names t = names w.server ∨ w.spawned < spawned ∧
    t.allocations = w.server.allocations + 1 ∧
    t.streamCtx = setAt w.server.streamCtx cnx stream (some w.server.allocations) ∧
    (t.prefixCtx = w.server.prefixCtx ∨
      t.prefixCtx = setAt w.server.prefixCtx cnx stream (some w.server.allocations))

section

variable {w : World} {cnx stream : Nat} {t : Server} {result : Option WtdPeer} {spawned : Nat}

theorem Connected.below (connected : Connected w cnx stream t result spawned) :
    w.server.allocations ≤ t.allocations ∧
      ∀ id < t.allocations, id ≤ w.server.allocations := by
  rcases connected.named with same | ⟨-, more, -⟩
  · have allocations : t.allocations = w.server.allocations := congrArg Prod.fst same
    rw [allocations]
    exact ⟨Nat.le_refl _, fun id below => Nat.le_of_lt below⟩
  · rw [more]
    exact ⟨Nat.le_succ _, fun id below => Nat.le_of_lt_succ below⟩

theorem Connected.counts (connected : Connected w cnx stream t result spawned)
    (allocated : w.server.allocations < t.allocations) : w.spawned < spawned := by
  rcases connected.named with same | ⟨more, -⟩
  · have allocations : t.allocations = w.server.allocations := congrArg Prod.fst same
    omega
  · exact more

theorem Connected.contexts (connected : Connected w cnx stream t result spawned) :
    (∀ other control id, t.prefixCtx other control = some id ->
      w.server.prefixCtx other control = some id ∨
        other = cnx ∧ control = stream ∧ id = w.server.allocations ∧ id < t.allocations) ∧
    ∀ other number id, t.streamCtx other number = some id ->
      w.server.streamCtx other number = some id ∨
        other = cnx ∧ number = stream ∧ id = w.server.allocations ∧ id < t.allocations := by
  have added : ∀ (table : Nat -> Nat -> Option Nat) (other number id : Nat),
      w.server.allocations < t.allocations ->
      setAt table cnx stream (some w.server.allocations) other number = some id ->
      table other number = some id ∨
        other = cnx ∧ number = stream ∧ id = w.server.allocations ∧ id < t.allocations := by
    intro table other number id more known
    rw [setAt_apply] at known
    split_ifs at known with here
    · obtain rfl := Option.some.inj known
      exact .inr ⟨here.1, here.2, rfl, more⟩
    · exact .inl known
  rcases connected.named with same | ⟨-, more, streams, prefixes⟩
  · simp only [names, Prod.mk.injEq] at same
    exact ⟨fun _ _ _ known => .inl (same.2.1 ▸ known), fun _ _ _ known => .inl (same.2.2 ▸ known)⟩
  · have above : w.server.allocations < t.allocations := by omega
    refine ⟨fun other control id known => ?_, fun other number id known => ?_⟩
    · rcases prefixes with same | set
      · exact .inl (same ▸ known)
      · exact added _ _ _ _ above (set ▸ known)
    · exact added _ _ _ _ above (streams ▸ known)

def withPeer (w : World) (cnx stream : Nat) (t : Server) (spawned : Nat) (table : Table File)
    (deeds : List Deed) : World :=
  { server := t
    table
    spawned
    child := Function.update w.child w.server.allocations w.spawned
    home := Function.update w.home w.server.allocations (cnx, stream)
    session := setAt w.session cnx stream (some (cnx, stream))
    deeds }

theorem after_single (named : Named w) (table : Table File) (deeds : List Deed) (id other : Nat)
    (first : id < w.server.allocations + 1) (second : other < w.server.allocations + 1)
    (same : (withPeer w cnx stream t spawned table deeds).child id =
      (withPeer w cnx stream t spawned table deeds).child other) : id = other := by
  simp only [withPeer, Function.update_apply] at same
  split_ifs at same with new late late
  · rw [new, late]
  · have before := named.spawned other (by omega)
    omega
  · have before := named.spawned id (by omega)
    omega
  · exact named.single id (by omega) other (by omega) same

theorem named_connect (named : Named w) (connected : Connected w cnx stream t result spawned)
    (table : Table File) (deeds : List Deed) :
    Named (withPeer w cnx stream t spawned table deeds) := by
  have old := connected.below.2
  have grows : ∀ other number known, w.session other number = some known ->
      (withPeer w cnx stream t spawned table deeds).session other number = some known := by
    intro other number known before
    simp only [withPeer, setAt_apply]
    split_ifs with here
    · obtain ⟨rfl, rfl⟩ := here
      simp [connected.fresh] at before
    · exact before
  have elsewhere : ∀ id < w.server.allocations, w.home id ≠ (cnx, stream) := by
    intro id below same
    have known := named.homes id below
    rw [same] at known
    simp [connected.fresh] at known
  have kept : ∀ id, id ≠ w.server.allocations ->
      (withPeer w cnx stream t spawned table deeds).home id = w.home id := by
    intro id new
    simp [withPeer, new]
  constructor
  · exact connected.listed
  · intro id below
    by_cases new : id = w.server.allocations
    · subst new
      simpa [withPeer] using connected.counts below
    · have before := named.spawned id (Nat.lt_of_le_of_ne (old id below) new)
      have counted := connected.counted
      simp only [withPeer, new, ne_eq, not_false_eq_true, Function.update_of_ne]
      omega
  · intro id below other second
    exact after_single named table deeds id other (Nat.lt_succ_of_le (old id below))
      (Nat.lt_succ_of_le (old other second))
  · intro id below
    by_cases new : id = w.server.allocations
    · simp [withPeer, new, setAt_apply]
    · rw [kept id new]
      exact grows _ _ _ (named.homes id (Nat.lt_of_le_of_ne (old id below) new))
  · intro id below other second same
    have first := old id below
    have last := old other second
    simp only [withPeer, Function.update_apply] at same
    split_ifs at same with new late late
    · rw [new, late]
    · exact absurd same.symm (elsewhere other (by omega))
    · exact absurd same (elsewhere id (by omega))
    · exact named.apart id (by omega) other (by omega) same
  · intro other number known there
    simp only [withPeer, setAt_apply] at there
    split_ifs at there with here
    · rw [← Option.some.inj there, here.1]
    · exact named.stays other number known there
  · intro other control id known
    rcases connected.contexts.1 other control id known with before | ⟨rfl, rfl, rfl, below⟩
    · obtain ⟨below, home⟩ := named.prefixes other control id before
      exact ⟨Nat.lt_of_lt_of_le below connected.below.1,
        (kept id (Nat.ne_of_lt below)).trans home⟩
    · exact ⟨below, by simp [withPeer]⟩
  · intro other number id known
    rcases connected.contexts.2 other number id known with before | ⟨rfl, rfl, rfl, below⟩
    · obtain ⟨below, owned⟩ := named.streams other number id before
      refine ⟨Nat.lt_of_lt_of_le below connected.below.1, ?_⟩
      rw [kept id (Nat.ne_of_lt below)]
      exact grows _ _ _ owned
    · exact ⟨below, by simp [withPeer, setAt_apply]⟩
  · intro id p there bound
    have value := (connected.values id).symm.trans there
    by_cases new : id = w.server.allocations
    · rw [if_pos new] at value
      exact absurd (connected.empty p value).2.2 bound
    · rw [if_neg new] at value
      rw [kept id new]
      exact grows _ _ _ (named.data id p value bound)

theorem accounted_unmet (accounted : Accounted w) (named : Named w)
    (fresh : w.session cnx stream = none) :
    w.deeds.filterMap (streamTo (cnx, stream)) = [] ∧
      w.deeds.filterMap (datagramTo (cnx, stream)) = [] ∧
      w.deeds.filterMap (writtenInto w.spawned) = [] := by
  have unmet : ∀ child session, .opened child session ∈ w.deeds ->
      child ≠ w.spawned ∧ session ≠ (cnx, stream) := by
    intro child session opened
    obtain ⟨id, below, rfl, rfl⟩ := accounted.opened child session opened
    refine ⟨Nat.ne_of_lt (named.spawned id below), fun same => ?_⟩
    have known := named.homes id below
    rw [same] at known
    simp [fresh] at known
  simp only [List.filterMap_eq_nil_iff]
  refine ⟨fun d member => ?_, fun d member => ?_, fun d member => ?_⟩ <;>
    have placed := accounted.placed d member
  · cases d with
    | sentStream dest data =>
      obtain ⟨child, session, opened, rfl⟩ := placed
      simp [streamTo, (unmet child session opened).2]
    | _ => rfl
  · cases d with
    | sentDatagram dest data =>
      obtain ⟨child, session, opened, rfl⟩ := placed
      simp [datagramTo, (unmet child session opened).2]
    | _ => rfl
  · cases d with
    | wrote file data =>
      obtain ⟨child, session, opened, rfl⟩ := placed
      simp [writtenInto, (unmet child session opened).1]
    | _ => rfl

theorem own_opened {deeds : List Deed} {child : Nat} {session : SessionId} {p : Option WtdPeer}
    (own : Own deeds child session p) (other : Nat) (known : SessionId) (there : Bool) :
    Own (deeds ++ if there then [.opened other known] else []) child session p := by
  cases there with
  | false => simpa using own
  | true =>
    refine ⟨?_, ?_, ?_⟩ <;>
      simp only [if_true, List.filterMap_append, List.filterMap_cons, List.filterMap_nil, streamTo,
        datagramTo, writtenInto, readFrom, receivedFrom, List.append_nil]
    · exact own.stream
    · exact own.datagram
    · exact own.input

theorem accounted_connect (accounted : Accounted w) (named : Named w)
    (connected : Connected w cnx stream t result spawned) (table : Table File) :
    Accounted (withPeer w cnx stream t spawned table (w.deeds ++
      if (t.heap w.server.allocations).isSome then [.opened w.spawned (cnx, stream)] else [])) := by
  have old := connected.below.2
  constructor
  · intro child session member
    rcases List.mem_append.mp member with before | now
    · obtain ⟨id, below, rfl, rfl⟩ := accounted.opened child session before
      have other := Nat.ne_of_lt below
      exact ⟨id, Nat.lt_of_lt_of_le below connected.below.1, by simp [withPeer, other],
        by simp [withPeer, other]⟩
    · split_ifs at now with live
      · obtain ⟨rfl, rfl⟩ : child = w.spawned ∧ session = (cnx, stream) := by simpa using now
        exact ⟨w.server.allocations, connected.listed.bounded _ live, by simp [withPeer],
          by simp [withPeer]⟩
      · simp at now
  · intro id p there
    by_cases new : id = w.server.allocations
    · obtain ⟨cell, present, -⟩ := Option.map_eq_some_iff.mp there
      have live : (t.heap w.server.allocations).isSome = true :=
        new ▸ Option.isSome_iff_exists.mpr ⟨cell, present⟩
      simp [withPeer, new, live]
    · have value := (connected.values id).symm.trans there
      rw [if_neg new] at value
      simp [withPeer, new, accounted.live id p value]
  · intro d member
    rcases List.mem_append.mp member with before | now
    · exact (accounted.placed d before).more _
    · split_ifs at now
      · obtain rfl : d = _ := by simpa using now
        trivial
      · simp at now
  · intro id below
    have value := connected.values id
    by_cases new : id = w.server.allocations
    · obtain ⟨streams, datagrams, inputs⟩ := accounted_unmet accounted named connected.fresh
      rw [if_pos new] at value
      have nothing : queued result = [] ∧ waiting result = [] := by
        cases result with
        | none => exact ⟨rfl, rfl⟩
        | some p => exact ⟨(connected.empty p rfl).1, (connected.empty p rfl).2.1⟩
      have begun : Own w.deeds w.spawned (cnx, stream) result :=
        ⟨by simp [streams, nothing], by simp [datagrams, nothing], by simp [inputs]⟩
      have still := own_opened begun w.spawned (cnx, stream) (t.heap w.server.allocations).isSome
      simpa [withPeer, new, ← value] using still
    · rw [if_neg new] at value
      have before := Nat.lt_of_le_of_ne (old id below) new
      have still := own_opened (accounted.own id before) w.spawned (cnx, stream)
        (t.heap w.server.allocations).isSome
      simpa [withPeer, new, value] using still

theorem filed_connect {records after : Nat -> PeerFds} (filed : Filed w records)
    (connected : Connected w cnx stream t result spawned) (table : Table File)
    (deeds : List Deed) (ledger : Ledger table fun k => (after k).child)
    (old : ∀ k, k ≠ w.spawned -> after k = records k)
    (unused : ∀ id < w.server.allocations, w.child id ≠ w.spawned)
    (settled : Settled (after w.spawned) result) :
    Filed (withPeer w cnx stream t spawned table deeds) after := by
  refine ⟨ledger, fun id below => ?_, fun k free => ?_⟩
  · have value := connected.values id
    by_cases new : id = w.server.allocations
    · rw [if_pos new] at value
      simpa [withPeer, new, ← value] using settled
    · have before := Nat.lt_of_le_of_ne (connected.below.2 id below) new
      rw [if_neg new] at value
      have live := filed.live id before
      rw [← old _ (unused id before)] at live
      simpa [withPeer, new, value] using live
  · by_cases same : k = w.spawned
    · subst same
      -- The number is in no peer's name, so the connect has left no peer.
      have none : result = none := by
        have value := connected.values w.server.allocations
        rw [if_pos rfl] at value
        cases there : t.heap w.server.allocations with
        | none => simpa [valueAt, there] using value.symm
        | some cell =>
          have below := connected.listed.bounded w.server.allocations (by simp [there])
          exact absurd (by simp [withPeer]) (free _ below)
      rw [none] at settled
      exact settled
    · rw [old k same]
      apply filed.unused
      intro id below
      have apart := free id (Nat.lt_of_lt_of_le below connected.below.1)
      simpa [withPeer, Nat.ne_of_lt below] using apart

end

theorem spawn_fields (w : World) (limit : Nat) (calls : ConnectCalls) :
    (w.spawn limit calls).1 =
        { w with
          table := (w.spawn limit calls).1.table, spawned := (w.spawn limit calls).1.spawned } ∧
      w.spawned ≤ (w.spawn limit calls).1.spawned ∧
      (calls.malloc = true -> w.spawned < (w.spawn limit calls).1.spawned) := by
  cases granted : calls.malloc <;> simp [World.spawn, granted]

theorem connect_connected {w : World} (named : Named w) (limit cnx stream : Nat)
    (calls : ConnectCalls) (t : Server) (fresh : w.session cnx stream = none)
    (step : serverStep w.server (.connect cnx stream (connectEnv calls (w.spawn limit calls).2)) =
      some t) :
    Connected w cnx stream t (wtSessionCb none (.connect stream (declaring w.server cnx stream
      (connectEnv calls (w.spawn limit calls).2)))).1 (w.spawn limit calls).1.spawned := by
  have running := serverStep_running w.server t _ step
  simp only [serverStep, running, Bool.false_eq_true, if_false] at step
  obtain ⟨-, rfl⟩ := (PeerRegistry.onOpen_eq_some w.server cnx _ t).mp step
  obtain ⟨listed, values⟩ := named.listed.connect cnx stream
    (connectEnv calls (w.spawn limit calls).2)
  obtain ⟨-, counted, counts⟩ := spawn_fields w limit calls
  refine ⟨fresh, listed, values, fun p made => ?_, counted, ?_⟩
  · rcases connect_peer none stream (declaring w.server cnx stream
      (connectEnv calls (w.spawn limit calls).2)) with same | ⟨created, born, there⟩
    · simp [same] at made
    · rw [made] at there
      obtain rfl := Option.some.inj there
      exact peerCreate_fresh _ created born
  · rcases connect_names w.server cnx stream (connectEnv calls (w.spawn limit calls).2) with
      same | ⟨malloc, more, streams, prefixes⟩
    · exact .inl same
    · exact .inr ⟨counts malloc, more, streams, prefixes⟩

theorem naming_after (w : World) (limit cnx stream : Nat) (calls : ConnectCalls) :
    (w.spawn limit calls).1.naming w.server.allocations w.spawned (cnx, stream) =
      withPeer w cnx stream w.server (w.spawn limit calls).1.spawned
        (w.spawn limit calls).1.table w.deeds := by
  rw [(spawn_fields w limit calls).1]
  rfl

theorem connect_performed {w m : World} {records : Nat -> PeerFds} (filed : Filed w records)
    (limit stream : Nat) (calls : ConnectCalls) (env : ConnectEnv)
    (malloc : env.malloc = calls.malloc) (spawn : env.spawn = (w.spawn limit calls).2)
    (table : m.table = (w.spawn limit calls).1.table)
    (own : m.child w.server.allocations = w.spawned)
    (known : ∀ id < w.server.allocations, m.child id = w.child id)
    (single : ∀ id < w.server.allocations + 1, ∀ other < w.server.allocations + 1,
      m.child id = m.child other -> id = other) :
    ∃ (table : Table File) (after : Nat -> PeerFds),
      (tagged w.server.allocations (wtSessionCb none (.connect stream env)).2.1).foldl
          (World.perform none) m = { m with table } ∧
      Ledger table (fun k => (after k).child) ∧
      (∀ k, k ≠ w.spawned -> after k = records k) ∧
      Settled (after w.spawned) (wtSessionCb none (.connect stream env)).1 := by
  have unused : ∀ id < w.server.allocations, w.child id ≠ w.spawned := by
    intro id below
    rw [← known id below, ← own]
    exact fun same => Nat.ne_of_lt below
      (single id (Nat.lt_succ_of_lt below) _ (Nat.lt_succ_self _) same)
  obtain ⟨fresh, opened, goal, run, settled⟩ :=
    spawn_filed filed unused limit calls stream env malloc spawn
  obtain ⟨replies, writes⟩ := connect_silent none stream env
  rw [← table] at opened
  generalize wtSessionCb none (.connect stream env) = handled at *
  have acts : ∀ id, logOf id (tagged w.server.allocations handled.2.1) =
      if w.server.allocations = id then handled.2.1 else [] := fun id => logOf_tagged _ _ _
  obtain ⟨table, after, performed, ledger, goals, untouched⟩ := performed_attributed none
    (w.server.allocations + 1) (tagged w.server.allocations handled.2.1) m
    (Function.update records w.spawned fresh) opened single
    (fun id below => by
      by_cases same : id = w.server.allocations
      · rw [same, own, acts, if_pos rfl, Function.update_self]
        exact ⟨goal, run⟩
      · rw [acts, if_neg (Ne.symm same)]
        exact ⟨_, rfl⟩)
    (fun e member => by
      obtain ⟨effect, -, rfl⟩ := List.mem_map.mp member
      exact Nat.lt_succ_self _)
    (fun e member => by
      obtain ⟨effect, inside, rfl⟩ := List.mem_map.mp member
      have quiet := List.any_eq_false.mp replies effect inside
      constructor
      · rintro number data rfl
        simp [isReply] at quiet
      · rintro data rfl
        simp [isReply] at quiet)
  refine ⟨table, after, ?_, ledger, fun k other => ?_, ?_⟩
  · have silent := silent_attributed (m.child w.server.allocations)
      (m.home w.server.allocations) handled.2.1 replies writes
    rw [performed, tagged, List.flatMap_map, silent, List.append_nil]
  · by_cases used : ∃ id < w.server.allocations, w.child id = k
    · obtain ⟨id, below, rfl⟩ := used
      have reached := goals id (Nat.lt_succ_of_lt below)
      rw [known id below, acts, if_neg (Nat.ne_of_gt below), exec_nil,
        Function.update_of_ne other] at reached
      exact (Option.some.inj reached).symm
    · rw [untouched k, Function.update_of_ne other]
      intro id below
      by_cases same : id = w.server.allocations
      · rw [same, own]
        exact other.symm
      · have before : id < w.server.allocations := by omega
        rw [known id before]
        exact fun here => used ⟨id, before, here⟩
  · have reached := goals w.server.allocations (Nat.lt_succ_self _)
    rw [own, acts, if_pos rfl, Function.update_self, run] at reached
    rw [← Option.some.inj reached]
    exact settled

theorem after_open (w : World) (cnx stream : Nat) (t : Server) (spawned : Nat)
    (table : Table File) :
    (withPeer w cnx stream t spawned table w.deeds).open w.server.allocations w.spawned
        (cnx, stream) =
      withPeer w cnx stream t spawned table (w.deeds ++
        if (t.heap w.server.allocations).isSome then [.opened w.spawned (cnx, stream)]
        else []) := by
  cases live : (t.heap w.server.allocations).isSome <;> simp [World.open, withPeer, live]

theorem connect_sound (w n : World) (limit cnx stream : Nat) (calls : ConnectCalls)
    (sound : Sound w) (taken : worldStep limit w (.connect cnx stream calls) = some n) :
    Sound n := by
  cases fresh : w.session cnx stream with
  | some known => simp [worldStep, fresh] at taken
  | none =>
    simp only [worldStep, fresh, Option.isSome_none, Bool.false_eq_true, if_false,
      naming_after] at taken
    obtain ⟨served, result, rfl⟩ := Option.map_eq_some_iff.mp taken
    obtain ⟨t, step, rfl⟩ := Option.map_eq_some_iff.mp result
    have connected := connect_connected sound.named limit cnx stream calls t fresh step
    obtain ⟨records, filed⟩ := sound.filed
    have unused : ∀ id < w.server.allocations, w.child id ≠ w.spawned :=
      fun id below => Nat.ne_of_lt (sound.named.spawned id below)
    obtain ⟨table, after, performed, ledger, old, settled⟩ := connect_performed
      (m := withPeer w cnx stream t (w.spawn limit calls).1.spawned
        (w.spawn limit calls).1.table (w.deeds ++ [])) filed limit stream calls
      (declaring w.server cnx stream (connectEnv calls (w.spawn limit calls).2)) rfl rfl rfl
      (Function.update_self _ _ _)
      (fun id below => Function.update_of_ne (Nat.ne_of_lt below) _ _)
      (fun id first other second => after_single sound.named _ _ id other first second)
    have done : Sound ((withPeer w cnx stream t (w.spawn limit calls).1.spawned table w.deeds).open
        w.server.allocations w.spawned (cnx, stream)) := by
      rw [after_open]
      exact ⟨named_connect sound.named connected _ _,
        ⟨after, filed_connect filed connected table _ ledger old unused settled⟩,
        accounted_connect sound.accounted sound.named connected table⟩
    rw [List.append_nil] at performed
    simp only [World.received, List.append_nil]
    exact performed ▸ done

theorem sound_start (files : Table Nat) : Sound (start files) := by
  have none : ∀ id, ¬ id < (start files).server.allocations := fun id => Nat.not_lt_zero id
  refine ⟨⟨listed_empty, ?_, ?_, ?_, ?_, ?_, ?_, ?_, ?_⟩,
    ⟨fun _ => { child := noChild, output := Option.none }, ?_, ?_, ?_⟩, ⟨?_, ?_, ?_, ?_⟩⟩
  · exact fun id below => absurd below (none id)
  · exact fun id below => absurd below (none id)
  · exact fun id below => absurd below (none id)
  · exact fun id below => absurd below (none id)
  · simp [start]
  · simp [start, emptyServer]
  · simp [start, emptyServer]
  · simp [start, emptyServer, valueAt]
  · exact (DescriptorOwnership.sound_start files).ledger
  · exact fun id below => absurd below (none id)
  · exact fun k free => DescriptorOwnership.gone_noChild
  · simp [start]
  · simp [start, emptyServer, valueAt]
  · simp [start]
  · exact fun id below => absurd below (none id)

def unharmed (w : World) : Bool :=
  !w.server.fault

theorem serve_running (w n : World) (a : ServerStep) (taken : w.serve a = some n) :
    w.server.fault = false := by
  obtain ⟨t, step, -⟩ := Option.map_eq_some_iff.mp taken
  exact serverStep_running w.server t a step

theorem unharmed_before (limit : Nat) (w : World) (a : WorldStep) (n : World)
    (taken : worldStep limit w a = some n) (well : unharmed n = true) : unharmed w = true := by
  cases a with
  | connect cnx stream calls =>
    simp only [worldStep, naming_after] at taken
    split_ifs at taken
    obtain ⟨served, result, -⟩ := Option.map_eq_some_iff.mp taken
    have running : w.server.fault = false := (serve_running _ _ _ result :)
    simp [unharmed, running]
  | server a =>
    simp only [worldStep] at taken
    split_ifs at taken
    simp [unharmed, serve_running w n a taken]
  | output peer malloc flag payload =>
    obtain ⟨t, access, rfl⟩ := Option.map_eq_some_iff.mp taken
    simpa [unharmed, access_fault _ _ _ _ access] using well
  | outputEof peer =>
    obtain ⟨t, access, rfl⟩ := Option.map_eq_some_iff.mp taken
    simpa [unharmed, access_fault _ _ _ _ access] using well

theorem access_live (s t : Server) (peer : Nat) (f : WtdPeer -> WtdPeer)
    (taken : s.access peer f = some t) : ∃ p, valueAt s.heap peer = some p := by
  cases here : s.heap peer with
  | none => simp [Server.access, here] at taken
  | some cell => exact ⟨cell.value, by simp [valueAt, here]⟩

theorem worldStep_sound (limit : Nat) (w : World) (a : WorldStep) (n : World) (sound : Sound w)
    (taken : worldStep limit w a = some n) (well : unharmed n = true) : Sound n := by
  have intact : n.server.fault = false := by simpa [unharmed] using well
  cases a with
  | connect cnx stream calls => exact connect_sound w n limit cnx stream calls sound taken
  | server a =>
    simp only [worldStep] at taken
    split_ifs at taken with admitted
    exact server_sound w n a sound admitted taken intact
  | output peer malloc flag payload =>
    obtain ⟨t, access, rfl⟩ := Option.map_eq_some_iff.mp taken
    obtain ⟨p, here⟩ := access_live w.server t peer _ access
    have file := outputOf_owned sound peer p here
    refine reader_sound w t peer _ (.output peer malloc flag payload)
      (.output malloc flag payload) _ sound access intact rfl (fun id => ?_) (fun d member => ?_)
      ⟨rfl, by simp [ReplyStream.postedOn], by simp, by simp [clientMessage], ?_⟩
    · simp only [stepOf, stepFor]
      split_ifs <;> rfl
    · obtain rfl : d = _ := by simpa using member
      exact ⟨rfl, w.child peer, w.home peer, sound.accounted.live peer p here, file⟩
    · cases malloc <;> simp [childOutput, readFrom, file]
  | outputEof peer =>
    obtain ⟨t, access, rfl⟩ := Option.map_eq_some_iff.mp taken
    have kept := reader_sound w t peer _ (.outputEof peer) .outputEof [] sound access intact rfl
      (fun id => by simp only [stepOf, stepFor]; split_ifs <;> rfl) (by simp)
      (fits_silent _ _ _ _ _ _ rfl rfl rfl rfl (by simp))
    simpa using kept

theorem sessions_never_mix (limit : Nat) (files : Table Nat) (schedule : List WorldStep) (w : World)
    (run : exec (worldStep limit) (start files) schedule = some w)
    (intact : w.server.fault = false) :
    (∀ d ∈ w.deeds, Placed w.deeds d) ∧
    ∀ child session, .opened child session ∈ w.deeds ->
      (∀ other second, .opened other second ∈ w.deeds -> (other = child ↔ second = session)) ∧
      (w.deeds.filterMap (writtenInto child)).Sublist
        (w.deeds.filterMap (receivedFrom session)) ∧
      (w.deeds.filterMap (streamTo session)).Sublist
        ((w.deeds.filterMap (readFrom child)).filterMap streamOf) ∧
      (w.deeds.filterMap (datagramTo session)).Sublist
        ((w.deeds.filterMap (readFrom child)).filterMap datagramOf) := by
  have well := (exec_restricted_final (worldStep limit) unharmed (unharmed_before limit)
    (start files) w schedule run (by simp [unharmed, intact])).1
  have sound : Sound w := by
    refine exec_invariant _ Sound (fun w a n sound taken => ?_) (start files) w schedule
      (sound_start files) well
    obtain ⟨good, taken⟩ := (restricted_iff _ _ _ _ _).mp taken
    exact worldStep_sound limit w a n sound taken (by simpa [taken] using good)
  refine ⟨sound.accounted.placed, fun child session opened => ?_⟩
  obtain ⟨id, below, rfl, rfl⟩ := sound.accounted.opened child session opened
  have own := sound.accounted.own id below
  refine ⟨fun other second again => ?_, own.input,
    (List.sublist_append_left _ _).trans own.stream,
    (List.sublist_append_left _ _).trans own.datagram⟩
  obtain ⟨peer, inside, rfl, rfl⟩ := sound.accounted.opened other second again
  constructor
  · intro same
    rw [sound.named.single peer inside id below same]
  · intro same
    rw [sound.named.apart peer inside id below same]

-- The first session leaves, and the third gets its descriptor numbers.
def threeSessions : List WorldStep :=
  let accepted : DeliverEnv := { malloc := true, block := fun _ => 0, ret := 3 }
  [.connect 0 0 (catCalls 301 (by decide) true), .connect 1 0 (catCalls 302 (by decide) true),
    .server (.join 0 4 0), .server (.join 1 4 0),
    .server (.onStream 0 4 (.postData [7] accepted)),
    .server (.onStream 1 4 (.postData [8] accepted)),
    .output 0 true 0 [9], .output 1 true 0 [10], .output 1 true 1 [11],
    .server (.loop fun _ _ => true), .server (.onDatagram 1 0 (.provideDatagram true)),
    .server (.deregister 0 0 fun _ => .reaped),
    .connect 2 0 (catCalls 303 (by decide) true), .server (.join 2 8 0),
    .server (.onStream 2 8 (.postData [12] accepted))]

theorem three_sessions_never_mix :
    ∃ w, exec (worldStep 64) (start stdio) threeSessions = some w ∧ w.server.fault = false ∧
      w.deeds.filterMap (writtenInto 0) = [[0, 1, 7]] ∧
      w.deeds.filterMap (writtenInto 2) = [[0, 1, 12]] ∧
      w.deeds.filterMap (streamTo (0, 0)) = [[9]] ∧
      w.deeds.filterMap (streamTo (1, 0)) = [[10]] ∧
      w.deeds.filterMap (datagramTo (1, 0)) = [[11]] ∧
      (w.deeds.filterMap (writtenInto 2)).Sublist (w.deeds.filterMap (receivedFrom (2, 0))) := by
  have ran : (exec (worldStep 64) (start stdio) threeSessions).map (fun w =>
      (w.server.fault, w.deeds)) = some (false,
        [.opened 0 (0, 0), .opened 1 (1, 0), .received (some (0, 0)) 0 [7],
          .wrote (some (.pipeEnd 0 .stdin .writing)) [0, 1, 7],
          .received (some (1, 0)) 0 [8], .wrote (some (.pipeEnd 1 .stdin .writing)) [0, 1, 8],
          .read (some (.pipeEnd 0 .stdout .reading)) { flag := 0, payload := [9] },
          .read (some (.pipeEnd 1 .stdout .reading)) { flag := 0, payload := [10] },
          .read (some (.pipeEnd 1 .stdout .reading)) { flag := 1, payload := [11] },
          .sentStream (some (1, 0)) [10], .sentStream (some (0, 0)) [9],
          .sentDatagram (some (1, 0)) [11], .opened 2 (2, 0),
          .received (some (2, 0)) 0 [12],
          .wrote (some (.pipeEnd 2 .stdin .writing)) [0, 1, 12]]) := by
    decide +kernel
  obtain ⟨w, run, facts⟩ := Option.map_eq_some_iff.mp ran
  obtain ⟨intact, deeds⟩ := Prod.mk.inj facts
  have apart := (sessions_never_mix 64 stdio threeSessions w run intact).2 2 (2, 0)
    (by simp [deeds])
  refine ⟨w, run, intact, ?_, ?_, ?_, ?_, ?_, apart.2.1⟩ <;> rw [deeds] <;> decide

end WebTransportD.SessionsApart
