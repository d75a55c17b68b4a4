import WebTransportD.Shared.Heap
import WebTransportD.Adapters.ChildProcess
import WebTransportD.Adapters.CommandLine

set_option autoImplicit false

namespace WebTransportD.Bootstrap

open CString Heap
open ChildProcess (WtdChild WaitOutcome SysCall wtdChildTerminate wtdChildTerminate_closes)
open CommandLine (TransportConfig Shown logError)
open Env (ascii)
open Log (LogLevel)

inductive Block where
  | bytes (content : List UInt8)
  | chain (base len : Nat)
  | session

abbrev Mem := Store Nat Block

def autocertDerCap : Nat := 4 * 1024
def autocertKeyDerCap : Nat := 1 * 1024

-- What mbedtls_x509write_crt_der leaves in `cert_buf`: it fills the buffer from its end.
structure DerOutput where
  buf : List UInt8
  der : List UInt8
  size : buf.length = autocertDerCap
  ends : der <:+ buf

-- What mbedtls_pk_write_key_pem leaves in `key_buf`: a text from its start, ended by NUL.
structure PemOutput where
  buf : List UInt8
  pem : List UInt8
  size : buf.length = autocertKeyDerCap
  starts : pem ++ [0] <+: buf
  text : 0 ∉ pem

inductive CertStep where
  | ctrDrbgSeed
  | pkSetup
  | ecpGenKey
  | setSubjectName
  | setIssuerName
  | setSerialRaw
  | setValidity
  | setBasicConstraints
  | setSubjectAlternativeName
  deriving DecidableEq

def certSteps : List CertStep :=
  [.ctrDrbgSeed, .pkSetup, .ecpGenKey, .setSubjectName, .setIssuerName, .setSerialRaw,
    .setValidity, .setBasicConstraints, .setSubjectAlternativeName]

-- The reader frees its buffer and returns once the child's stdout has ended, if that happens.
inductive Reader where
  | returned
  | running (buf : Nat) (returns : Bool)

def Reader.returns : Reader -> Bool
  | .returned => true
  | .running _ returns => returns

def Reader.buffers : Reader -> List Nat
  | .returned => []
  | .running buf _ => [buf]

-- A session that is live when the packet loop ends: the block of its peer, those of the frames and
-- datagrams it still queues, and its child with what waitpid will answer for it.
structure LiveSession where
  peer : Nat
  frames : List Nat
  dgrams : List Nat
  reader : Reader
  child : WtdChild
  waits : Nat -> WaitOutcome

def LiveSession.blocks (s : LiveSession) : List Nat :=
  s.reader.buffers ++ (s.frames ++ (s.dgrams ++ [s.peer]))

def LiveSession.fds (s : LiveSession) : List Nat :=
  ([s.child.stdinFd, s.child.stdoutFd, s.child.stderrFd].filter (0 ≤ ·)).map Int.toNat

structure Apart (blocks : Blocks Nat Block) (fds : Finset Nat) (live : List LiveSession) :
    Prop where
  addresses : (live.flatMap LiveSession.blocks).Nodup
  unused : ∀ a ∈ live.flatMap LiveSession.blocks, blocks.lookup a = none
  descriptors : (live.flatMap LiveSession.fds).Nodup
  closed : ∀ fd ∈ live.flatMap LiveSession.fds, fd ∉ fds

-- What the libraries and the system answer during one run. `certHash` is base64 of SHA-256, `live`
-- are the sessions that clients have opened and not ended when the packet loop ends.
structure Platform where
  alloc : Allocator Nat Block
  fails : CertStep -> Bool
  writeDer : Option DerOutput
  writePem : Option PemOutput
  certHash : List UInt8 -> List UInt8
  creates : Bool
  acceptsKey : List UInt8 -> Bool
  pipe : Finset Nat -> Option (Nat × Nat)
  pipeFresh : ∀ fds r w, pipe fds = some (r, w) -> r ∉ fds ∧ w ∉ fds ∧ r ≠ w
  live : Blocks Nat Block -> Finset Nat -> List LiveSession
  liveApart : ∀ blocks fds, Apart blocks fds (live blocks fds)
  loopCode : Int
  shouldExit : Bool

inductive CertSource where
  | absent
  | file (path : List UInt8)
  | chain (list : Nat)
  deriving DecidableEq

inductive KeySource where
  | absent
  | file (path : List UInt8)
  | buffer (pem : List UInt8)
  deriving DecidableEq

structure Quic where
  certs : CertSource
  key : KeySource
  enforceClientOnly : Bool

structure Host where
  mem : Mem
  quic : Option Quic
  fds : Finset Nat
  shown : List Shown

-- free(NULL) does nothing.
def freePointer (m : Mem) : Option Nat -> Option Mem
  | none => some m
  | some a => free m a

-- `len` bytes at `a`; the PEM sniffer of picotls looks at the byte behind them as well.
def readBytes (m : Mem) (a len : Nat) : Option (List UInt8) :=
  match m.blocks.lookup a with
  | some (.bytes content) => if len < content.length then some (content.take len) else none
  | _ => none

structure Autocert where
  certDer : Nat
  certDerLen : Nat
  keyDer : Nat
  keyDerLen : Nat

-- The label `out`.
def autocertOut (m : Mem) (certHeap keyHeap : Option Nat) (given : Option Autocert) :
    Option (Mem × Option Autocert) := do
  let m ← freePointer m certHeap
  let m ← freePointer m keyHeap
  some (m, given)

def generateKey (p : Platform) (m : Mem) (certHeap certLen : Nat) :
    Option (Mem × Option Autocert) :=
  match p.writePem with
  | none => autocertOut m (some certHeap) none none
  | some out =>
      let keyLen := (cString out.buf 0).length
      match malloc p.alloc m (.bytes (out.buf.take (keyLen + 1))) with
      | (m, none) => autocertOut m (some certHeap) none none
      | (m, some keyHeap) =>
          -- Both are handed over, so `out` has nothing to free.
          autocertOut m none none (some
            { certDer := certHeap, certDerLen := certLen, keyDer := keyHeap, keyDerLen := keyLen })

-- `wtd_autocert_generate`; the inner `none` is its failure, the outer one an access to memory that
-- is not allocated.
def wtdAutocertGenerate (p : Platform) (m : Mem) : Option (Mem × Option Autocert) :=
  if certSteps.any p.fails then autocertOut m none none none
  else
    match p.writeDer with
    | none => autocertOut m none none none
    | some out =>
        let certLen := out.der.length
        let content := (out.buf.drop (autocertDerCap - certLen)).take certLen ++ [0]
        match malloc p.alloc m (.bytes content) with
        | (m, none) => autocertOut m none none none
        | (m, some certHeap) => generateKey p m certHeap certLen

def closeFd (fds : Finset Nat) (fd : Nat) : Option (Finset Nat) :=
  if fd ∈ fds then some (fds.erase fd) else none

def closeAll (fds : Finset Nat) (list : List Nat) : Option (Finset Nat) :=
  list.foldlM closeFd fds

def runCall (fds : Finset Nat) : SysCall -> Option (Finset Nat)
  | .close fd => closeFd fds fd.toNat
  | _ => some fds

-- `peer_remove`; the Boolean says whether it comes back from joining the reader.
def peerRemove (h : Host) (s : LiveSession) : Option (Host × Bool) :=
  if s.reader.returns then do
    let m ← freeAll h.mem s.reader.buffers
    let m ← freeAll m s.frames
    let fds ← (wtdChildTerminate s.child s.waits).2.foldlM runCall h.fds
    let m ← freeAll m s.dgrams
    let m ← free m s.peer
    some ({ h with mem := m, fds }, true)
  else some (h, false)

-- Deleting a connection deregisters the prefixes of its sessions.
def deleteConnections : List LiveSession -> Host -> Option (Host × Bool)
  | [], h => some (h, true)
  | s :: rest, h => do
      match ← peerRemove h s with
      | (h, false) => some (h, false)
      | (h, true) => deleteConnections rest h

-- The certificate list of the TLS context is freed with it.
def freeContext (h : Host) : Option Host := do
  let quic ← h.quic
  match quic.certs with
  | .chain list =>
      match h.mem.blocks.lookup list with
      | some (.chain base _) =>
          let m ← free h.mem base
          let m ← free m list
          some { h with mem := m, quic := none }
      | _ => none
  | _ => some { h with quic := none }

def picoquicFree (live : List LiveSession) (h : Host) : Option (Host × Bool) := do
  match ← deleteConnections live h with
  | (h, false) => some (h, false)
  | (h, true) =>
      let h ← freeContext h
      some (h, true)

def Host.logged (h : Host) (level : LogLevel) (text : String) : Host :=
  { h with shown := h.shown ++ logError level (ascii text) }

def certLine (p : Platform) (der : List UInt8) : List UInt8 :=
  ascii "cert-hash: " ++ p.certHash der ++ ascii "\n"

def generate (p : Platform) (level : LogLevel) (h : Host) : Option (Host × Option Autocert) := do
  match ← wtdAutocertGenerate p h.mem with
  | (m, none) =>
      some ({ h with mem := m }.logged level "webtransportd: --cert=auto failed", none)
  | (m, some cert) =>
      let der ← readBytes m cert.certDer cert.certDerLen
      some ({ h with mem := m, shown := h.shown ++ [.stdout (certLine p der)] }, some cert)

-- The part under `if (use_autocert)` after picoquic_create; there is no connection yet.
def install (p : Platform) (level : LogLevel) (cert : Autocert) (quic : Quic) (h : Host) :
    Option (Host × Bool) :=
  let quic := { quic with enforceClientOnly := false }
  match malloc p.alloc h.mem (.chain cert.certDer cert.certDerLen) with
  | (m, none) => do
      let h := { h with mem := m, quic := some quic }
      let (h, _) ← picoquicFree [] (h.logged level "webtransportd: chain alloc failed")
      let m ← free h.mem cert.certDer
      let m ← free m cert.keyDer
      some ({ h with mem := m }, false)
  | (m, some chain) => do
      let quic := { quic with certs := .chain chain }
      let pem ← readBytes m cert.keyDer cert.keyDerLen
      if p.acceptsKey pem then
        let m ← free m cert.keyDer
        some ({ h with mem := m, quic := some { quic with key := .buffer pem } }, true)
      else
        let h := { h with mem := m, quic := some quic }
        let (h, _) ← picoquicFree [] (h.logged level "webtransportd: key install failed")
        let m ← free h.mem cert.keyDer
        some ({ h with mem := m }, false)

-- A context without certificate or key is taken for a client's.
def picoquicCreate (cert key : Option (List UInt8)) : Quic :=
  { certs := cert.elim .absent .file, key := key.elim .absent .file
    enforceClientOnly := cert.isNone || key.isNone }

-- `wtd_transport_run` up to the packet loop; the Boolean says whether it gets there.
def prepare (p : Platform) (level : LogLevel) (cfg : TransportConfig) (h : Host) :
    Option (Host × Bool) :=
  if cfg.cert = ascii "auto" then do
    match ← generate p level h with
    | (h, none) => some (h, false)
    | (h, some cert) =>
        if p.creates then
          install p level cert (picoquicCreate none none) h
        else
          let h := h.logged level "webtransportd: picoquic_create failed"
          let m ← free h.mem cert.certDer
          let m ← free m cert.keyDer
          some ({ h with mem := m }, false)
  else if p.creates then
    some ({ h with quic := some (picoquicCreate (some cfg.cert) cfg.key) }, true)
  else some (h.logged level "webtransportd: picoquic_create failed", false)

-- pipe(tctx.wake_up_pipe_fd), without which the loop runs all the same.
def openWakeUp (fds : Finset Nat) : Option (Nat × Nat) -> Finset Nat
  | none => fds
  | some (r, w) => insert w (insert r fds)

def closeWakeUp (fds : Finset Nat) : Option (Nat × Nat) -> Option (Finset Nat)
  | none => some fds
  | some (r, w) => do
      let fds ← closeFd fds r
      closeFd fds w

def terminatePacketLoop : Int := 0x400 + 47

def openAll (fds : Finset Nat) (list : List Nat) : Finset Nat :=
  list.foldr insert fds

def Host.accept (h : Host) (live : List LiveSession) : Host :=
  { h with
    mem := { h.mem with
      blocks := placeAll h.mem.blocks .session (live.flatMap LiveSession.blocks) }
    fds := openAll h.fds (live.flatMap LiveSession.fds) }

inductive Ending where
  | returned (code : Nat)
  | blocked
  deriving DecidableEq

def liveSessions (p : Platform) (h : Host) : List LiveSession :=
  p.live h.mem.blocks (openWakeUp h.fds (p.pipe h.fds))

-- The rest of `wtd_transport_run`. Of the packet loop there is its return code and the sessions
-- that it leaves.
def serve (p : Platform) (level : LogLevel) (h : Host) : Option (Host × Ending) := do
  let wakeUp := p.pipe h.fds
  let live := liveSessions p h
  match ← picoquicFree live ({ h with fds := openWakeUp h.fds wakeUp }.accept live) with
  | (h, false) => some (h, .blocked)
  | (h, true) =>
      let fds ← closeWakeUp h.fds wakeUp
      let h := { h with fds }
      if p.loopCode = terminatePacketLoop ∨ p.loopCode = 0 ∨ p.shouldExit then
        some (h, .returned 0)
      else
        some (h.logged level ("webtransportd: packet loop rc=" ++ toString p.loopCode),
          .returned 1)

def wtdTransportRun (p : Platform) (level : LogLevel) (cfg : TransportConfig) (h : Host) :
    Option (Host × Ending) := do
  match ← prepare p level cfg h with
  | (h, false) => some (h, .returned 1)
  | (h, true) => serve p level h

inductive Owner where
  | cert
  | key
  | chain
  deriving DecidableEq

def held (cert key chain : Option (Nat × Block)) : Owner -> Option (Nat × Block)
  | .cert => cert
  | .key => key
  | .chain => chain

section Held

variable (cert key chain next : Option (Nat × Block))

theorem held_cert : Function.update (held cert key chain) .cert next = held next key chain := by
  funext o
  cases o <;> simp [held]

theorem held_key : Function.update (held cert key chain) .key next = held cert next chain := by
  funext o
  cases o <;> simp [held]

theorem held_chain : Function.update (held cert key chain) .chain next = held cert key next := by
  funext o
  cases o <;> simp [held]

end Held

theorem DerOutput.copied (out : DerOutput) :
    (out.buf.drop (autocertDerCap - out.der.length)).take out.der.length = out.der := by
  obtain ⟨front, whole⟩ := out.ends
  have size := out.size
  rw [← whole, List.length_append] at size
  rw [← whole, ← size, Nat.add_sub_cancel, List.drop_left, List.take_length]

theorem PemOutput.strlen (out : PemOutput) : (cString out.buf 0).length = out.pem.length := by
  obtain ⟨rest, whole⟩ := out.starts
  have text := cString_append [] out.pem rest out.text
  rw [← whole, List.append_assoc]
  exact congrArg List.length text

theorem PemOutput.copied (out : PemOutput) :
    out.buf.take (out.pem.length + 1) = out.pem ++ [0] := by
  obtain ⟨rest, whole⟩ := out.starts
  rw [← whole]
  exact List.take_left' (by simp)

theorem readBytes_owned {base : Blocks Nat Block} {m : Mem} {slots : Owner -> Option (Nat × Block)}
    (owns : Owns base m slots) (o : Owner) (a : Nat) (content : List UInt8)
    (owned : slots o = some (a, .bytes (content ++ [0]))) :
    readBytes m a content.length = some content := by
  simp [readBytes, owns.lookup o a _ owned]

structure Generated (p : Platform) (base : Blocks Nat Block) (m : Mem) (cert : Autocert)
    (der : DerOutput) (pem : PemOutput) : Prop where
  writeDer : p.writeDer = some der
  writePem : p.writePem = some pem
  certLen : cert.certDerLen = der.der.length
  keyLen : cert.keyDerLen = pem.pem.length
  owns : Owns base m (held (some (cert.certDer, .bytes (der.der ++ [0])))
    (some (cert.keyDer, .bytes (pem.pem ++ [0]))) none)

theorem generateKey_cases (p : Platform) (base : Blocks Nat Block) (m : Mem) (cert : Nat)
    (der : DerOutput) (wrote : p.writeDer = some der)
    (owns : Owns base m (held (some (cert, .bytes (der.der ++ [0]))) none none)) :
    (∃ after, generateKey p m cert der.der.length = some (after, none) ∧ after.blocks = base) ∨
    ∃ after given pem, generateKey p m cert der.der.length = some (after, some given) ∧
      Generated p base after given der pem := by
  -- A failure frees the certificate, whatever requests were counted.
  have failure : ∀ requests, ∃ after,
      autocertOut { m with requests } (some cert) none none = some (after, none) ∧
        after.blocks = base := by
    intro requests
    obtain ⟨after, freed, -, left⟩ := Owns.free (s := { m with requests }) owns .cert cert _ rfl
    refine ⟨after, by simp [autocertOut, freePointer, freed], left.settled fun o => ?_⟩
    cases o <;> simp [held]
  cases wrotePem : p.writePem with
  | none =>
    obtain ⟨after, out, same⟩ := failure m.requests
    exact .inl ⟨after, by simp only [generateKey, wrotePem, out], same⟩
  | some pem =>
    cases granted : p.alloc.grants m.requests with
    | false =>
      obtain ⟨after, out, same⟩ := failure (m.requests + 1)
      refine .inl ⟨after, ?_, same⟩
      simp only [generateKey, wrotePem, malloc_refused p.alloc m _ granted, out]
    | true =>
      obtain ⟨after, key, copied, -, both⟩ :=
        owns.malloc p.alloc .key (.bytes (pem.pem ++ [0])) rfl granted
      rw [held_key] at both
      refine .inr ⟨after, ⟨cert, der.der.length, key, pem.pem.length⟩, pem, ?_,
        ⟨wrote, wrotePem, rfl, rfl, both⟩⟩
      simp only [generateKey, wrotePem, pem.strlen, pem.copied, copied, autocertOut, freePointer,
        Option.bind_eq_bind, Option.bind_some]

theorem held_nothing (m : Mem) : Owns m.blocks m (held none none none) := by
  convert owns_nothing (O := Owner) m using 1
  funext o
  cases o <;> rfl

theorem wtdAutocertGenerate_cases (p : Platform) (m : Mem) :
    (∃ after, wtdAutocertGenerate p m = some (after, none) ∧ after.blocks = m.blocks) ∨
    ∃ after cert der pem, wtdAutocertGenerate p m = some (after, some cert) ∧
      Generated p m.blocks after cert der pem := by
  by_cases failed : certSteps.any p.fails
  · exact .inl ⟨m, by simp [wtdAutocertGenerate, failed, autocertOut, freePointer], rfl⟩
  cases wrote : p.writeDer with
  | none =>
    exact .inl ⟨m, by simp [wtdAutocertGenerate, failed, wrote, autocertOut, freePointer], rfl⟩
  | some der =>
    cases granted : p.alloc.grants m.requests with
    | false =>
      refine .inl ⟨{ m with requests := m.requests + 1 }, ?_, rfl⟩
      simp [wtdAutocertGenerate, failed, wrote, malloc_refused p.alloc m _ granted, autocertOut,
        freePointer]
    | true =>
      obtain ⟨after, cert, copied, -, owns⟩ :=
        (held_nothing m).malloc p.alloc .cert (.bytes (der.der ++ [0])) rfl granted
      rw [held_cert] at owns
      have second : wtdAutocertGenerate p m = generateKey p after cert der.der.length := by
        simp [wtdAutocertGenerate, failed, wrote, der.copied, copied]
      rw [second]
      rcases generateKey_cases p m.blocks after cert der wrote owns with failure | success
      · exact .inl failure
      · obtain ⟨final, given, pem, run, generated⟩ := success
        exact .inr ⟨final, given, der, pem, run, generated⟩

structure Failed (level : LogLevel) (h after : Host) : Prop where
  blocks : after.mem.blocks = h.mem.blocks
  quic : after.quic = none
  fds : after.fds = h.fds
  reported : ∃ shown text, after.shown = shown ++ logError level text

structure ServesGenerated (p : Platform) (base : Blocks Nat Block) (h : Host) (der : DerOutput)
    (pem : PemOutput) (cert chain : Nat) : Prop where
  writeDer : p.writeDer = some der
  writePem : p.writePem = some pem
  quic : h.quic =
    some { certs := .chain chain, key := .buffer pem.pem, enforceClientOnly := false }
  announced : Shown.stdout (certLine p der.der) ∈ h.shown
  owns : Owns base h.mem (held (some (cert, .bytes (der.der ++ [0]))) none
    (some (chain, .chain cert der.der.length)))

theorem freeContext_chain {base : Blocks Nat Block} {content : Block}
    {key : Option (Nat × Block)} (h : Host) (quic : Quic) (cert chain len : Nat)
    (alive : h.quic = some quic) (listed : quic.certs = .chain chain)
    (owns : Owns base h.mem (held (some (cert, content)) key (some (chain, .chain cert len)))) :
    ∃ m, freeContext h = some { h with mem := m, quic := none } ∧
      Owns base m (held none key none) := by
  have list := owns.lookup .chain chain (.chain cert len) rfl
  obtain ⟨m1, first, -, owns1⟩ := owns.free .cert cert content rfl
  rw [held_cert] at owns1
  obtain ⟨m2, second, -, owns2⟩ := owns1.free .chain chain (.chain cert len) rfl
  rw [held_chain] at owns2
  refine ⟨m2, ?_, owns2⟩
  simp [freeContext, alive, listed, list, first, second]

theorem emptied {base : Blocks Nat Block} {m : Mem} (owns : Owns base m (held none none none)) :
    m.blocks = base :=
  owns.settled fun o => by cases o <;> rfl

theorem generate_cases (p : Platform) (level : LogLevel) (h : Host) (idle : h.quic = none) :
    (∃ after, generate p level h = some (after, none) ∧ Failed level h after) ∨
    ∃ after cert der pem, generate p level h = some (after, some cert) ∧
      Generated p h.mem.blocks after.mem cert der pem ∧ after.quic = none ∧ after.fds = h.fds ∧
      Shown.stdout (certLine p der.der) ∈ after.shown := by
  rcases wtdAutocertGenerate_cases p h.mem with ⟨m, failed, same⟩ | success
  · refine .inl ⟨{ h with mem := m }.logged level "webtransportd: --cert=auto failed", ?_, same,
      idle, rfl, _, _, rfl⟩
    simp only [generate, failed, Option.bind_eq_bind, Option.bind_some]
  · obtain ⟨m, cert, der, pem, run, generated⟩ := success
    have read : readBytes m cert.certDer cert.certDerLen = some der.der := by
      rw [generated.certLen]
      exact readBytes_owned generated.owns .cert _ _ rfl
    refine .inr ⟨{ h with mem := m, shown := h.shown ++ [.stdout (certLine p der.der)] }, cert, der,
      pem, ?_, generated, idle, rfl, by simp⟩
    simp only [generate, run, read, Option.bind_eq_bind, Option.bind_some]

theorem freeBoth {base : Blocks Nat Block} {m : Mem} {first second : Block} (cert key : Nat)
    (owns : Owns base m (held (some (cert, first)) (some (key, second)) none)) :
    ∃ m1 m2, free m cert = some m1 ∧ free m1 key = some m2 ∧ m2.blocks = base := by
  obtain ⟨m1, one, -, owns1⟩ := owns.free .cert cert first rfl
  rw [held_cert] at owns1
  obtain ⟨m2, two, -, owns2⟩ := owns1.free .key key second rfl
  rw [held_key] at owns2
  exact ⟨m1, m2, one, two, emptied owns2⟩

theorem install_cases (p : Platform) (level : LogLevel) (base : Blocks Nat Block) (quic : Quic)
    (cert : Autocert) (der : DerOutput) (pem : PemOutput) (h : Host)
    (fresh : quic.certs = .absent) (generated : Generated p base h.mem cert der pem)
    (announced : Shown.stdout (certLine p der.der) ∈ h.shown) :
    (∃ after, install p level cert quic h = some (after, false) ∧ after.mem.blocks = base ∧
      after.quic = none ∧ after.fds = h.fds ∧
      ∃ shown text, after.shown = shown ++ logError level text) ∨
    ∃ after chain, install p level cert quic h = some (after, true) ∧ after.fds = h.fds ∧
      ServesGenerated p base after der pem cert.certDer chain := by
  cases granted : p.alloc.grants h.mem.requests with
  | false =>
    obtain ⟨m1, m2, one, two, same⟩ :=
      freeBoth (m := { h.mem with requests := h.mem.requests + 1 }) _ _ generated.owns
    refine .inl ⟨{ h with mem := m2, quic := none }.logged level
      "webtransportd: chain alloc failed", ?_, same, rfl, rfl, _, _, rfl⟩
    simp only [install, malloc_refused p.alloc h.mem _ granted, picoquicFree, deleteConnections,
      freeContext, Host.logged, fresh, Option.bind_eq_bind, Option.bind_some, one, two]
  | true =>
    obtain ⟨m1, chain, listed, -, owns1⟩ := generated.owns.malloc p.alloc .chain
      (.chain cert.certDer cert.certDerLen) rfl granted
    rw [held_chain] at owns1
    have read : readBytes m1 cert.keyDer cert.keyDerLen = some pem.pem := by
      rw [generated.keyLen]
      exact readBytes_owned owns1 .key _ _ rfl
    cases accepted : p.acceptsKey pem.pem with
    | true =>
      obtain ⟨m2, freed, -, owns2⟩ := owns1.free .key cert.keyDer _ rfl
      rw [held_key] at owns2
      refine .inr ⟨{ h with
        mem := m2
        quic := some { certs := .chain chain, key := .buffer pem.pem
                       enforceClientOnly := false } }, chain, ?_, rfl,
        ⟨generated.writeDer, generated.writePem, rfl, announced, generated.certLen ▸ owns2⟩⟩
      simp only [install, listed, read, accepted, if_true, freed, Option.bind_eq_bind,
        Option.bind_some]
    | false =>
      obtain ⟨m2, freed, owns2⟩ := freeContext_chain
        ({ h with mem := m1, quic := some { quic with
            certs := .chain chain, enforceClientOnly := false } }.logged level
          "webtransportd: key install failed") _ _ _ _ rfl rfl owns1
      obtain ⟨m3, last, -, owns3⟩ := owns2.free .key cert.keyDer _ rfl
      rw [held_key] at owns3
      refine .inl ⟨{ h with mem := m3, quic := none }.logged level
        "webtransportd: key install failed", ?_, emptied owns3, rfl, rfl, _, _, rfl⟩
      simp only [install, listed, read, accepted, Bool.false_eq_true, if_false, picoquicFree,
        deleteConnections, freed, last, Option.bind_eq_bind, Option.bind_some]
      rfl

theorem prepare_cases (p : Platform) (level : LogLevel) (cfg : TransportConfig) (h : Host)
    (idle : h.quic = none) :
    (∃ after, prepare p level cfg h = some (after, false) ∧ Failed level h after) ∨
    (cfg.cert = ascii "auto" ∧ ∃ after der pem cert chain,
      prepare p level cfg h = some (after, true) ∧ after.fds = h.fds ∧
        ServesGenerated p h.mem.blocks after der pem cert chain) ∨
    (cfg.cert ≠ ascii "auto" ∧
      prepare p level cfg h =
        some ({ h with quic := some (picoquicCreate (some cfg.cert) cfg.key) }, true)) := by
  by_cases auto : cfg.cert = ascii "auto"
  · simp only [prepare, if_pos auto]
    rcases generate_cases p level h idle with ⟨after, run, failed⟩ | success
    · exact .inl ⟨after, by simp only [run, Option.bind_eq_bind, Option.bind_some], failed⟩
    · obtain ⟨host, cert, der, pem, run, generated, quiet, same, announced⟩ := success
      cases created : p.creates with
      | true =>
        simp only [run, Option.bind_eq_bind, Option.bind_some, if_true]
        rcases install_cases p level h.mem.blocks (picoquicCreate none none) cert der pem host rfl
            generated announced with
          ⟨after, installed, blocks, gone, fds, reported⟩ | ⟨after, chain, installed, fds, serves⟩
        · exact .inl ⟨after, installed, blocks, gone, fds.trans same, reported⟩
        · exact .inr (.inl ⟨auto, after, der, pem, cert.certDer, chain, installed,
            fds.trans same, serves⟩)
      | false =>
        obtain ⟨m1, m2, one, two, blocks⟩ := freeBoth _ _ generated.owns
        refine .inl ⟨{ host with mem := m2 }.logged level "webtransportd: picoquic_create failed",
          ?_, blocks, quiet, same, _, _, rfl⟩
        simp only [run, Option.bind_eq_bind, Option.bind_some, Bool.false_eq_true, if_false,
          Host.logged, one, two]
  · cases created : p.creates with
    | true =>
      exact .inr (.inr ⟨auto, by simp only [prepare, if_neg auto, created, if_true]⟩)
    | false =>
      refine .inl ⟨h.logged level "webtransportd: picoquic_create failed", ?_, rfl, idle, rfl, _, _,
        rfl⟩
      simp only [prepare, if_neg auto, created, Bool.false_eq_true, if_false]

theorem closeWakeUp_open (p : Platform) (fds : Finset Nat) :
    closeWakeUp (openWakeUp fds (p.pipe fds)) (p.pipe fds) = some fds := by
  cases opened : p.pipe fds with
  | none => rfl
  | some ends =>
    obtain ⟨r, w⟩ := ends
    obtain ⟨newR, newW, apart⟩ := p.pipeFresh fds r w opened
    have first : (insert w (insert r fds)).erase r = insert w fds := by
      rw [Finset.erase_insert_of_ne apart.symm, Finset.erase_insert newR]
    simp [openWakeUp, closeWakeUp, closeFd, first, newW]

theorem mem_openAll (fds : Finset Nat) (list : List Nat) (fd : Nat) :
    fd ∈ openAll fds list ↔ fd ∈ list ∨ fd ∈ fds := by
  induction list with
  | nil => simp [openAll]
  | cons first rest ih =>
    rw [openAll, List.foldr_cons, Finset.mem_insert, ← openAll, ih, List.mem_cons, or_assoc]

theorem closeAll_openAll (fds : Finset Nat) (list : List Nat) (distinct : list.Nodup)
    (closed : ∀ fd ∈ list, fd ∉ fds) : closeAll (openAll fds list) list = some fds := by
  induction list with
  | nil => rfl
  | cons fd rest ih =>
    obtain ⟨alone, others⟩ := List.nodup_cons.mp distinct
    have shut : fd ∉ openAll fds rest := by
      rw [mem_openAll, not_or]
      exact ⟨alone, closed fd (by simp)⟩
    have first : closeFd (openAll fds (fd :: rest)) fd = some (openAll fds rest) := by
      simp only [closeFd, openAll, List.foldr_cons, Finset.mem_insert_self, if_true]
      exact congrArg some (Finset.erase_insert shut)
    rw [closeAll, List.foldlM_cons, first]
    exact ih others fun other member => closed other (List.mem_cons_of_mem fd member)

theorem runCalls_eq (fds : Finset Nat) (calls : List SysCall) :
    calls.foldlM runCall fds =
      closeAll fds ((calls.filterMap SysCall.closes).map Int.toNat) := by
  induction calls generalizing fds with
  | nil => rfl
  | cons call rest ih =>
    cases call with
    | close fd => simp [runCall, SysCall.closes, closeAll, ih]
    | write fd data ret => exact ih fds
    | kill pid signal => exact ih fds
    | waitpid pid block outcome => exact ih fds
    | nanosleep => exact ih fds

theorem peerRemove_accepted (h : Host) (s : LiveSession) (rest : List LiveSession)
    (apart : Apart h.mem.blocks h.fds (s :: rest)) (returns : s.reader.returns = true) :
    peerRemove (h.accept (s :: rest)) s = some (h.accept rest, true) := by
  obtain ⟨distinct, unused, opened, closed⟩ := apart
  rw [List.flatMap_cons] at distinct unused opened closed
  obtain ⟨own, -, others⟩ := List.nodup_append'.mp distinct
  obtain ⟨ownFds, -, otherFds⟩ := List.nodup_append'.mp opened
  have freed : freeAll (h.accept (s :: rest)).mem s.blocks = some (h.accept rest).mem := by
    simp only [Host.accept, List.flatMap_cons, placeAll_append]
    refine freeAll_placeAll _ _ _ _ own fun a member => ?_
    rw [lookup_placeAll _ _ _ _ (others member)]
    exact unused a (List.mem_append_left _ member)
  have shut : (wtdChildTerminate s.child s.waits).2.foldlM runCall (h.accept (s :: rest)).fds =
      some (h.accept rest).fds := by
    rw [runCalls_eq, wtdChildTerminate_closes]
    simp only [Host.accept, List.flatMap_cons, openAll, List.foldr_append]
    refine closeAll_openAll _ _ ownFds fun fd member => ?_
    rw [← openAll, mem_openAll, not_or]
    exact ⟨otherFds member, closed fd (List.mem_append_left _ member)⟩
  obtain ⟨m1, buffers, m2, frames, m3, dgrams, peer⟩ : ∃ m1,
      freeAll (h.accept (s :: rest)).mem s.reader.buffers = some m1 ∧ ∃ m2,
      freeAll m1 s.frames = some m2 ∧ ∃ m3, freeAll m2 s.dgrams = some m3 ∧
      free m3 s.peer = some (h.accept rest).mem := by
    simpa [freeAll, LiveSession.blocks, List.foldlM_append, Option.bind_eq_some_iff] using freed
  simp only [peerRemove, returns, if_true, buffers, frames, shut, dgrams, peer,
    Option.bind_eq_bind, Option.bind_some]
  rfl

theorem Apart.tail {blocks : Blocks Nat Block} {fds : Finset Nat} {s : LiveSession}
    {rest : List LiveSession} (apart : Apart blocks fds (s :: rest)) : Apart blocks fds rest := by
  obtain ⟨distinct, unused, opened, closed⟩ := apart
  rw [List.flatMap_cons] at distinct unused opened closed
  exact ⟨distinct.of_append_right, fun a member => unused a (List.mem_append_right _ member),
    opened.of_append_right, fun fd member => closed fd (List.mem_append_right _ member)⟩

theorem deleteConnections_accepted (h : Host) (live : List LiveSession)
    (apart : Apart h.mem.blocks h.fds live) :
    ((∀ s ∈ live, s.reader.returns = true) ∧
      deleteConnections live (h.accept live) = some (h, true)) ∨
    (∃ s ∈ live, s.reader.returns = false) ∧
      ∃ after, deleteConnections live (h.accept live) = some (after, false) := by
  induction live with
  | nil => exact .inl ⟨by simp, rfl⟩
  | cons s rest ih =>
    cases returns : s.reader.returns with
    | false =>
      refine .inr ⟨⟨s, by simp, returns⟩, h.accept (s :: rest), ?_⟩
      simp [deleteConnections, peerRemove, returns]
    | true =>
      have step := peerRemove_accepted h s rest apart returns
      simp only [deleteConnections, step, Option.bind_eq_bind, Option.bind_some]
      rcases ih apart.tail with ⟨all, done⟩ | ⟨⟨late, member, stuck⟩, after, run⟩
      · exact .inl ⟨by simpa [returns] using all, done⟩
      · exact .inr ⟨⟨late, List.mem_cons_of_mem s member, stuck⟩, after, run⟩

structure Settled (level : LogLevel) (h after : Host) (code : Nat) : Prop where
  blocks : after.mem.blocks = h.mem.blocks
  quic : after.quic = none
  fds : after.fds = h.fds
  exit : code = 0 ∨ code = 1 ∧ ∃ shown text, after.shown = shown ++ logError level text

theorem serve_cases (p : Platform) (level : LogLevel) (h : Host) (m : Mem)
    (gone : freeContext { h with fds := openWakeUp h.fds (p.pipe h.fds) } =
      some { h with mem := m, quic := none, fds := openWakeUp h.fds (p.pipe h.fds) }) :
    ((∀ s ∈ liveSessions p h, s.reader.returns = true) ∧
      ∃ after code, serve p level h = some (after, .returned code) ∧
        Settled level { h with mem := m } after code) ∨
    (∃ s ∈ liveSessions p h, s.reader.returns = false) ∧
      ∃ after, serve p level h = some (after, .blocked) := by
  have closed := closeWakeUp_open p h.fds
  rcases deleteConnections_accepted { h with fds := openWakeUp h.fds (p.pipe h.fds) }
      (liveSessions p h) (p.liveApart _ _) with ⟨all, done⟩ | ⟨late, after, run⟩
  · refine .inl ⟨all, ?_⟩
    by_cases ok : p.loopCode = terminatePacketLoop ∨ p.loopCode = 0 ∨ p.shouldExit
    · refine ⟨{ h with mem := m, quic := none }, 0, ?_, rfl, rfl, rfl, .inl rfl⟩
      simp only [serve, picoquicFree, done, gone, closed, if_pos ok, Option.bind_eq_bind,
        Option.bind_some]
    · refine ⟨{ h with mem := m, quic := none }.logged level
        ("webtransportd: packet loop rc=" ++ toString p.loopCode), 1, ?_, rfl, rfl, rfl,
        .inr ⟨rfl, _, _, rfl⟩⟩
      simp only [serve, picoquicFree, done, gone, closed, if_neg ok, Option.bind_eq_bind,
        Option.bind_some]
  · refine .inr ⟨late, after, ?_⟩
    simp only [serve, picoquicFree, run, Option.bind_eq_bind, Option.bind_some]

theorem prepared_serves (p : Platform) (level : LogLevel) (cfg : TransportConfig) (h : Host)
    (idle : h.quic = none) :
    (∃ after, prepare p level cfg h = some (after, false) ∧ Failed level h after) ∨
    ∃ ready m, prepare p level cfg h = some (ready, true) ∧ ready.fds = h.fds ∧
      m.blocks = h.mem.blocks ∧
      freeContext { ready with fds := openWakeUp ready.fds (p.pipe ready.fds) } = some { ready with
        mem := m, quic := none, fds := openWakeUp ready.fds (p.pipe ready.fds) } := by
  rcases prepare_cases p level cfg h idle with failure | auto | ⟨-, run⟩
  · exact .inl failure
  · obtain ⟨-, ready, der, pem, cert, chain, run, same, serves⟩ := auto
    obtain ⟨m, gone, owns⟩ := freeContext_chain
      { ready with fds := openWakeUp ready.fds (p.pipe ready.fds) } _ cert chain _ serves.quic rfl
      serves.owns
    exact .inr ⟨ready, m, run, same, emptied owns, gone⟩
  · exact .inr ⟨_, h.mem, run, rfl, rfl, rfl⟩

theorem transport_run_gives_back (p : Platform) (level : LogLevel) (cfg : TransportConfig)
    (h : Host) (idle : h.quic = none) :
    ∃ after ending, wtdTransportRun p level cfg h = some (after, ending) ∧
      (ending = .blocked ↔ ∃ ready s, prepare p level cfg h = some (ready, true) ∧
        s ∈ liveSessions p ready ∧ s.reader.returns = false) ∧
      ∀ code, ending = .returned code -> Settled level h after code := by
  rcases prepared_serves p level cfg h idle with ⟨after, run, failed⟩ | success
  · refine ⟨after, .returned 1, ?_, ?_, ?_⟩
    · simp only [wtdTransportRun, run, Option.bind_eq_bind, Option.bind_some]
    · simp [run]
    · rintro code ⟨⟩
      exact ⟨failed.blocks, failed.quic, failed.fds, .inr ⟨rfl, failed.reported⟩⟩
  · obtain ⟨ready, m, run, same, blocks, gone⟩ := success
    simp only [wtdTransportRun, run, Option.bind_eq_bind, Option.bind_some]
    rcases serve_cases p level ready m gone with ⟨all, after, code, served, settled⟩ |
      ⟨⟨s, member, stuck⟩, after, served⟩
    · refine ⟨after, .returned code, served, ?_, ?_⟩
      · constructor
        · simp
        · rintro ⟨_, s, found, member, stuck⟩
          obtain rfl : ready = _ := by simpa using found
          simp [all s member] at stuck
      · rintro _ ⟨⟩
        exact ⟨settled.blocks.trans blocks, settled.quic, settled.fds.trans same, settled.exit⟩
    · exact ⟨after, .blocked, served, ⟨fun _ => ⟨ready, s, rfl, member, stuck⟩, fun _ => rfl⟩,
        by simp⟩

def twoByteDer : DerOutput where
  buf := List.replicate 4094 0xff ++ [1, 2]
  der := [1, 2]
  size := by rw [List.length_append, List.length_replicate]; rfl
  ends := List.suffix_append _ _

def shortPem : PemOutput where
  buf := [3, 0] ++ List.replicate 1022 0xff
  pem := [3]
  size := by rw [List.length_append, List.length_replicate]; rfl
  starts := List.prefix_append _ _
  text := by simp

def obliging (code : Int) : Platform where
  alloc := { grants := fun _ => true, place := fun blocks _ => above blocks
             fresh := fun blocks _ => lookup_above blocks }
  fails _ := false
  writeDer := some twoByteDer
  writePem := some shortPem
  certHash der := der.reverse
  creates := true
  acceptsKey pem := pem != []
  pipe fds := some (fds.sup id + 1, fds.sup id + 2)
  pipeFresh fds r w opened := by
    obtain ⟨rfl, rfl⟩ := by simpa using opened
    have bound : ∀ n ∈ fds, n ≤ fds.sup id := fun n => Finset.le_sup (f := id)
    refine ⟨fun member => ?_, fun member => ?_, by omega⟩ <;>
    · have := bound _ member
      omega
  live _ _ := []
  liveApart _ _ := ⟨.nil, by simp, .nil, by simp⟩
  loopCode := code
  shouldExit := false

def idleHost : Host :=
  { mem := { blocks := ∅, requests := 0 }, quic := none, fds := {0, 1, 2}, shown := [] }

def waitingSession (returns : Bool) (blocks : Blocks Nat Block) (fds : Finset Nat) : LiveSession :=
  { peer := above blocks, frames := [], dgrams := [above blocks + 1]
    reader := .running (above blocks + 2) returns
    child := { pid := 100, stdinFd := fds.sup id + 1, stdoutFd := fds.sup id + 2, stderrFd := -1 }
    waits := fun _ => .reaped }

theorem waitingSession_apart (returns : Bool) (blocks : Blocks Nat Block) (fds : Finset Nat) :
    Apart blocks fds [waitingSession returns blocks fds] := by
  have free : ∀ a, above blocks ≤ a -> blocks.lookup a = none := by
    intro a beyond
    refine Finmap.lookup_eq_none.mpr fun member => ?_
    have below := Finset.le_sup (f := id) (Finmap.mem_keys.mpr member)
    simp only [above, id] at beyond below
    omega
  have shut : ∀ fd, fds.sup id < fd -> fd ∉ fds := fun fd beyond member =>
    absurd (Finset.le_sup (f := id) member) (Nat.not_le.mpr beyond)
  have ends : (waitingSession returns blocks fds).fds = [fds.sup id + 1, fds.sup id + 2] := by
    have stdin : (0 : Int) ≤ fds.sup id + 1 := by omega
    have stdout : (0 : Int) ≤ fds.sup id + 2 := by omega
    simp only [LiveSession.fds, waitingSession, List.filter_cons, stdin, stdout]
    rfl
  constructor
  · simp [waitingSession, LiveSession.blocks, Reader.buffers]
  · simp [waitingSession, LiveSession.blocks, Reader.buffers, free]
  · simp [ends]
  · simp [ends, shut]

def serving (code : Int) (returns : Bool) : Platform :=
  { obliging code with
    live := fun blocks fds => [waitingSession returns blocks fds]
    liveApart := waitingSession_apart returns }

theorem transport_run_gives_back_sessions :
    (∃ after, wtdTransportRun (serving 5 true) .error CommandLine.autoConfig idleHost =
        some (after, .returned 1) ∧ Settled .error idleHost after 1) ∧
      ∃ after, wtdTransportRun (serving 5 false) .error CommandLine.autoConfig idleHost =
        some (after, .blocked) := by
  obtain ⟨after, ending, run, -, settled⟩ :=
    transport_run_gives_back (serving 5 true) .error CommandLine.autoConfig idleHost rfl
  have code : (wtdTransportRun (serving 5 true) .error CommandLine.autoConfig idleHost).map
      Prod.snd = some (.returned 1) := by decide +kernel
  have stuck : (wtdTransportRun (serving 5 false) .error CommandLine.autoConfig idleHost).map
      Prod.snd = some .blocked := by decide +kernel
  obtain rfl : ending = .returned 1 := by simpa [run] using code
  obtain ⟨⟨last, _⟩, held, rfl⟩ := Option.map_eq_some_iff.mp stuck
  exact ⟨⟨after, run, settled 1 rfl⟩, last, held⟩

def servedDer (h : Host) : Option (List UInt8) := do
  let quic ← h.quic
  match quic.certs with
  | .chain list =>
      match h.mem.blocks.lookup list with
      | some (.chain base len) => readBytes h.mem base len
      | _ => none
  | _ => none

theorem started_server_serves (stack : Nat -> UInt8) (args : List (List UInt8)) (level : LogLevel)
    (cfg : TransportConfig) (started : CommandLine.main stack args = .run level cfg)
    (p : Platform) (h after : Host) (idle : h.quic = none)
    (ready : prepare p level cfg h = some (after, true)) :
    ∃ quic, after.quic = some quic ∧ quic.enforceClientOnly = false ∧
      (cfg.cert ≠ ascii "auto" -> quic.certs = .file cfg.cert ∧
        ∃ path, cfg.key = some path ∧ quic.key = .file path) ∧
      (cfg.cert = ascii "auto" -> ∃ der pem, p.writeDer = some der ∧ p.writePem = some pem ∧
        servedDer after = some der.der ∧ quic.key = .buffer pem.pem ∧
        Shown.stdout (certLine p der.der) ∈ after.shown) := by
  have signed := ((CommandLine.main_run_iff stack args level cfg).mp started).2.2.signed
  rcases prepare_cases p level cfg h idle with ⟨_, run, -⟩ | auto | ⟨file, run⟩
  · simp [run] at ready
  · obtain ⟨auto, host, der, pem, cert, chain, run, -, serves⟩ := auto
    obtain rfl : host = after := by simpa [run] using ready
    refine ⟨_, serves.quic, rfl, fun other => absurd auto other, fun _ => ?_⟩
    refine ⟨der, pem, serves.writeDer, serves.writePem, ?_, rfl, serves.announced⟩
    have list := serves.owns.lookup .chain chain _ rfl
    have read := readBytes_owned serves.owns .cert cert der.der rfl
    simp [servedDer, serves.quic, list, read]
  · obtain ⟨path, key⟩ := Option.ne_none_iff_exists'.mp (signed.resolve_left file)
    obtain rfl := by simpa [run] using ready
    exact ⟨_, rfl, by simp [picoquicCreate, key], fun _ => ⟨rfl, path, key, by
      simp [picoquicCreate, key]⟩, fun auto => absurd auto file⟩

theorem started_server_serves_auto :
    ∃ after quic, prepare (obliging 0) .info CommandLine.autoConfig idleHost = some (after, true) ∧
      after.quic = some quic ∧ quic.enforceClientOnly = false ∧ servedDer after = some [1, 2] ∧
      quic.key = .buffer [3] := by
  obtain ⟨⟨after, started⟩, run⟩ : ∃ result,
      prepare (obliging 0) .info CommandLine.autoConfig idleHost = some result :=
    Option.isSome_iff_exists.mp (by decide +kernel)
  have ready : (prepare (obliging 0) .info CommandLine.autoConfig idleHost).map Prod.snd =
      some true := by decide +kernel
  obtain rfl : started = true := by simpa [run] using ready
  obtain ⟨quic, alive, accepts, -, auto⟩ := started_server_serves (fun _ => 0)
    (CommandLine.arguments .info CommandLine.autoConfig) .info CommandLine.autoConfig
    (by decide +kernel) (obliging 0) idleHost after rfl run
  obtain ⟨der, pem, wroteDer, wrotePem, served, key, -⟩ := auto rfl
  obtain rfl := Option.some.inj wroteDer
  obtain rfl := Option.some.inj wrotePem
  exact ⟨after, quic, run, alive, accepts, served, key⟩

end WebTransportD.Bootstrap
