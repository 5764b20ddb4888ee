import TelemetryServer.Ipc.SharedRingBuffer

/-! `Server`: the event loop that frames, checks and publishes what its clients send. The
members of the object and the variables of `run` that the handlers share are the `server`
of the world; there is one epoll instance. -/

namespace TelemetryServer.Server

open Protocol Ipc Atomic

structure ServerConfig where
  port : Nat := 9000
  quiet : Bool := false
  deriving DecidableEq, Repr

structure Setup where
  config : ServerConfig := {}
  spaceReadyFd : Int
  signalFd : Int
  readerPid : Nat
  deriving DecidableEq, Repr

def EXIT_SUCCESS : Nat := 0
def EXIT_FAILURE : Nat := 1

def memory : Proc Memory := Proc.act (fun w => (w.server, w))

def update (f : Memory → Memory) : Proc Unit :=
  Proc.act (fun w => ((), { w with server := f w.server }))

/-- `EPOLLERR | EPOLLHUP`, which are reported whether asked for or not. -/
def ownMask : Mask := { hup := true, err := true }

def listenMask : Mask := { readable := true, hup := true, err := true }

/-- `EPOLLIN | EPOLLRDHUP | EPOLLERR | EPOLLHUP`. -/
def clientMask : Mask := { readable := true, rdhup := true, hup := true, err := true }

def addEpollFd (fd : Int) (events : Mask) : Proc Bool := Proc.call (.net (.epollCtl .add fd events))

def modifyEpollFd (fd : Int) (events : Mask) : Proc Bool :=
  Proc.call (.net (.epollCtl .modify fd events))

def removeEpollFd (fd : Int) : Proc Bool := Proc.call (.net (.epollCtl .delete fd {}))

def closeFd (fd : Int) : Proc Unit := Proc.call (.net (.close fd))

namespace Memory

def keys (m : Memory) : List Int := m.clients.map Prod.fst

/-- `m_clients.emplace`: a key that is there keeps its value. -/
def emplace (m : Memory) (fd : Int) : Memory :=
  if fd ∈ m.keys then m else { m with clients := m.clients ++ [(fd, {})] }

def erase (m : Memory) (fd : Int) : Memory :=
  { m with clients := m.clients.filter (fun entry => entry.1 ≠ fd) }

/-- Changes the input buffer of a client. -/
def modify (m : Memory) (fd : Int) (f : Buffer → Buffer) : Memory :=
  { m with clients := m.clients.map (fun entry =>
      if entry.1 = fd then (entry.1, f entry.2) else entry) }

def buffer (m : Memory) (fd : Int) : Buffer := (m.clients.lookup fd).getD {}

end Memory

def removeClient (clientFd : Int) : Proc Unit := do
  let _ ← removeEpollFd clientFd
  closeFd clientFd
  update (fun m => m.erase clientFd)
  Proc.log (.cout ("[server] client disconnected fd=" ++ toString clientFd ++ "\n"))

def removeAllClients : Proc Unit :=
  Prog.iterate (fun _ => do
    let m ← memory
    match ← (Proc.call (.iteration m.keys) : Proc (List Int)) with
    | [] => return .inr ()
    | clientFd :: _ =>
        removeClient clientFd
        return .inl ()) ()

def updateClients (enabled : Bool) : List Int → Proc Bool
  | [] => return true
  | clientFd :: rest => do
      Proc.point (.watching (if enabled then .add else .delete) clientFd)
      if ← (if enabled then addEpollFd clientFd clientMask else removeEpollFd clientFd) then
        updateClients enabled rest
      else
        return false

def updateIngressInterest (enabled : Bool) : Proc Bool := do
  let m ← memory
  Proc.point (.watching .modify m.listenFd)
  if ← modifyEpollFd m.listenFd { ownMask with readable := enabled } then
    updateClients enabled (← (Proc.call (.iteration m.keys) : Proc (List Int)))
  else
    return false

def acceptClients (listenFd : Int) : Proc Bool :=
  Prog.iterate (fun _ => do
    match ← (Proc.call (.net (.accept4 listenFd)) : Proc FdResult) with
    | .ok clientFd =>
        if ← addEpollFd clientFd clientMask then
          update (fun m => m.emplace clientFd)
          Proc.log (.cout ("[server] client connected fd=" ++ toString clientFd ++ "\n"))
          return .inl ()
        else
          Proc.log (.perror "epoll_ctl ADD client")
          closeFd clientFd
          return .inl ()
    | .error .EAGAIN => return .inr true
    | .error .EINTR => return .inl ()
    | .error _ =>
        Proc.log (.perror "accept4")
        return .inr false) ()

/-- The leading frames that decode, each announced unless `quiet`, and the error of the
first one that does not. -/
def validate (quiet : Bool) (clientFd : Int) : List Frame → Proc (Nat × DecodeError)
  | [] => return (0, .none)
  | frame :: rest => do
      let decoded := decode frame.bytes
      if decoded.ok then
        if !quiet then Proc.log (.received clientFd decoded.record)
        let (count, error) ← validate quiet clientFd rest
        return (count + 1, error)
      else
        return (0, decoded.error)

def notifyPublished (publishedAny : Bool) : Proc Bool :=
  if publishedAny then notifyEvent .dataReady else return true

/-- How one received chunk ends: with `none` the client is read on, else `readClient`
returns the value and the request to pause. -/
abbrev Verdict := Option (Bool × Bool)

/-- Publishes the checked frames in front of the buffer; answers whether any were, whether
ingress is to pause, and false first when the ring did not take them all. -/
def publishFrames (clientFd : Int) (validFrames : Nat) : Proc (Bool × Bool × Bool) := do
  if validFrames ≠ 0 then
    let m ← memory
    let validBytes := (m.buffer clientFd).unread.take (validFrames * kFrameSize)
    let pushed ← tryPushBatch validBytes
    Proc.point (.pushed validBytes pushed)
    update (fun m => m.modify clientFd (fun b => { b with offset := b.offset + pushed * kFrameSize }))
    if pushed ≠ validFrames then
      return (false, pushed != 0, false)
    let pending ← pendingBytes
    return (true, pushed != 0, decide (kPauseIngressBytes ≤ pending))
  else
    return (true, false, false)

/-- What follows the publication of a chunk's frames: the reader is woken before the client
is rejected or read on. -/
def settleChunk (clientFd : Int) (invalidError : DecodeError) (fits publishedAny pause : Bool) :
    Proc Verdict := do
  if !fits then
    if ← notifyPublished publishedAny then
      Proc.log .sharedRingFull
    return some (false, pause)
  if !(← notifyPublished publishedAny) then return some (false, pause)
  if invalidError ≠ .none then
    Proc.log (.cerr ("[server] client fd=" ++ toString clientFd ++ " protocol error: " ++
      invalidError.toString ++ "\n"))
    removeClient clientFd
    return some (true, pause)
  update (fun m => m.modify clientFd Buffer.compact)
  if pause then return some (true, true)
  return none

def processChunk (config : ServerConfig) (clientFd : Int) (bytes : List UInt8) : Proc Verdict := do
  update (fun m => m.modify clientFd (fun b => b.insert bytes))
  let m ← memory
  if kMaxClientBuffer < (m.buffer clientFd).pendingBytes then
    Proc.log (.inputBufferLimit clientFd)
    removeClient clientFd
    return some (true, false)
  let available := ((m.buffer clientFd).pendingBytes) / kFrameSize
  let (validFrames, invalidError) ← validate config.quiet clientFd
    ((frames (m.buffer clientFd).unread).take available)
  let (fits, publishedAny, pause) ← publishFrames clientFd validFrames
  settleChunk clientFd invalidError fits publishedAny pause

def readClient (config : ServerConfig) (clientFd : Int) : Proc (Bool × Bool) := do
  let m ← memory
  if clientFd ∉ m.keys then return (true, false)
  Prog.iterate (fun _ => do
    match ← (Proc.call (.net (.recv clientFd)) : Proc RecvResult) with
    | .data bytes =>
        match ← processChunk config clientFd bytes with
        | none => return .inl ()
        | some result => return .inr result
    | .eof =>
        let m ← memory
        if (m.buffer clientFd).pendingBytes ≠ 0 then
          Proc.log (.cerr ("[server] client fd=" ++ toString clientFd ++
            " disconnected with partial frame: " ++ toString (m.buffer clientFd).pendingBytes ++
            " bytes\n"))
        removeClient clientFd
        return .inr (true, false)
    | .error .EINTR => return .inl ()
    | .error .EAGAIN => return .inr (true, false)
    | .error _ =>
        Proc.log (.perror "recv")
        removeClient clientFd
        return .inr (true, false)) ()

def Mask.failed (mask : Mask) : Bool := mask.err || mask.hup
def Mask.hangup (mask : Mask) : Bool := mask.rdhup || mask.hup || mask.err

/-- The resume test of a space notification. -/
def resumeIngress : Proc Bool := do
  let m ← memory
  if m.state = .running ∧ m.ingressPaused = true then
    if (← pendingBytes) ≤ kResumeIngressBytes then
      if ← updateIngressInterest true then
        update (fun m => { m with ingressPaused := false })
        let pending ← pendingBytes
        Proc.log (.cout ("[server] ingress resumed, IPC pending=" ++ toString pending ++ "\n"))
        return true
      else
        Proc.log (.perror "epoll_ctl ingress resume")
        return false
    else
      return true
  else
    return true

def handleListener (event : Event) : Proc Bool := do
  let m ← memory
  if ← (if !m.ingressPaused && event.events.readable then acceptClients m.listenFd else return true) then
    if event.events.failed then
      Proc.log (.cerr "[server] listening socket error\n")
      return false
    else
      return true
  else
    return false

def consumeSpace : Proc Bool := do
  if ← consumeEvent .spaceReady then resumeIngress else return false

def handleSpace (event : Event) : Proc Bool := do
  if ← (if event.events.readable then consumeSpace else return true) then
    if event.events.failed then
      Proc.log (.cerr "[server] space eventfd error\n")
      return false
    else
      return true
  else
    return false

def pauseIngress : Proc Bool := do
  if ← updateIngressInterest false then
    update (fun m => { m with ingressPaused := true })
    let pending ← pendingBytes
    Proc.log (.cout ("[server] ingress paused, ring buffer pending=" ++ toString pending ++ "\n"))
    return true
  else
    Proc.log (.perror "epoll_ctl MOD ingress pause")
    return false

/-- The end of a client event: while ingress is paused a hangup is left alone. -/
def handleHangup (event : Event) : Proc Bool := do
  let m ← memory
  if m.ingressPaused then return true
  if event.events.hangup ∧ event.fd ∈ m.keys then
    removeClient event.fd
    return true
  else
    return true

def handleClient (config : ServerConfig) (event : Event) : Proc Bool := do
  let m ← memory
  if !m.ingressPaused && event.events.readable then
    let (ok, pauseRequested) ← readClient config event.fd
    if !ok then return false
    if pauseRequested then pauseIngress else handleHangup event
  else
    handleHangup event

def handleEvent (setup : Setup) (event : Event) : Proc Bool := do
  let m ← memory
  if event.fd = m.listenFd then handleListener event
  else if event.fd = setup.spaceReadyFd then handleSpace event
  else handleClient setup.config event

structure SignalState where
  shutdownRequested : Bool := false
  readerTerminated : Bool := false
  deriving DecidableEq, Repr

/-- What one signal record means. -/
def noteSignal (setup : Setup) (state : SignalState) (info : SignalInfo) : Proc SignalState := do
  if info.signo = World.SIGINT ∨ info.signo = World.SIGTERM then
    Proc.log (.cout ("[server] shutdown requested signal=" ++ toString info.signo ++ "\n"))
    return { state with shutdownRequested := true }
  if info.signo = World.SIGCHLD ∧ info.pid = setup.readerPid then
    if info.code = World.CLD_EXITED then
      Proc.log (.cerr ("[server] reader exited code=" ++ toString info.status ++ "\n"))
      return { state with readerTerminated := true }
    if info.code = World.CLD_KILLED then
      Proc.log (.cerr ("[server] reader killed by signal=" ++ toString info.status ++ "\n"))
      return { state with readerTerminated := true }
    if info.code = World.CLD_DUMPED then
      Proc.log (.cerr ("[server] reader dumped core signal=" ++ toString info.status ++ "\n"))
      return { state with readerTerminated := true }
    if info.code = World.CLD_STOPPED then
      Proc.log (.cout ("[server] reader stopped signal=" ++ toString info.status ++ "\n"))
      return state
    if info.code = World.CLD_CONTINUED then
      Proc.log (.cout "[server] reader continued\n")
      return state
    return state
  return state

/-- `none` is the answer false. -/
def handleSignalFd (setup : Setup) : Proc (Option SignalState) :=
  Prog.iterate (fun state => do
    match ← (Proc.call .signalRead : Proc SignalResult) with
    | .info info => return .inl (← noteSignal setup state info)
    | .error .EINTR => return .inl state
    | .error .EAGAIN => return .inr (some state)
    | .eof =>
        Proc.log (.cerr "[server] unexpected signalfd EOF\n")
        return .inr none
    | .error _ =>
        Proc.log (.perror "read(signalfd)")
        return .inr none) {}

def beginDraining : Proc Unit := do
  let m ← memory
  if m.listenFd ≠ -1 then
    let _ ← removeEpollFd m.listenFd
    closeFd m.listenFd
    update (fun m => { m with listenFd := -1 })
    Proc.log (.cout "[server] stopped accepting clients\n")
    removeAllClients
  else
    removeAllClients

def applySignals (signals : SignalState) : Proc Bool := do
  if signals.readerTerminated then
    Proc.log (.cerr "[server] storage process unavailable\n")
    return false
  let m ← memory
  if signals.shutdownRequested = true ∧ m.state = .running then
    Proc.log (.cout "[server] entering draining state\n")
    update (fun m => { m with state := .draining })
    beginDraining
    return true
  else
    return true

def readSignals (setup : Setup) : Proc Bool := do
  match ← handleSignalFd setup with
  | none => return false
  | some signals => applySignals signals

def handleSignalEvent (setup : Setup) (event : Event) : Proc Bool := do
  if ← (if event.events.readable then readSignals setup else return true) then
    if event.events.failed then
      Proc.log (.cerr "[server] signalfd error\n")
      return false
    else
      return true
  else
    return false

def handleEvents (setup : Setup) : List Event → Proc Bool
  | [] => return true
  | event :: rest => do
      if event.fd = setup.signalFd then
        if ← handleSignalEvent setup event then handleEvents setup rest else return false
      else
        Proc.point (.handling event)
        let ok ← handleEvent setup event
        Proc.point (.handled event ok)
        if ok then handleEvents setup rest else return false

def drained : Proc Bool := do
  let m ← memory
  if m.state = .draining then
    if ← empty then
      Proc.point .drained
      return true
    else
      return false
  else
    return false

def eventLoop (setup : Setup) : Proc Nat :=
  Prog.iterate (fun _ => do
    if ← drained then
      return .inr EXIT_SUCCESS
    else
      match ← (Proc.call .epollWait : Proc EpollResult) with
      | .eintr => return .inl ()
      | .error =>
          Proc.log (.perror "epoll_wait")
          return .inr EXIT_FAILURE
      | .ready events =>
          if ← handleEvents setup events then return .inl () else return .inr EXIT_FAILURE) ()

/-- Failing while the server starts: the descriptors opened so far are closed. -/
def giveUp (message : String) (fds : List Int) : Proc Nat := do
  Proc.log (.perror message)
  fds.forM closeFd
  return EXIT_FAILURE

def shutDown (result : Nat) : Proc Nat := do
  removeAllClients
  let m ← memory
  if m.listenFd ≠ -1 then
    closeFd m.listenFd
    closeFd m.epollFd
    return result
  else
    closeFd m.epollFd
    return result

def serve (setup : Setup) (listenFd epollFd : Int) : Proc Nat := do
  if !(← addEpollFd listenFd listenMask) then
    return ← giveUp "epoll_ctl ADD listen" [epollFd, listenFd]
  if !(← addEpollFd setup.spaceReadyFd listenMask) then
    return ← giveUp "epoll_ctl ADD spaceReady" [epollFd, listenFd]
  if !(← addEpollFd setup.signalFd listenMask) then
    return ← giveUp "epoll_ctl ADD signal" [epollFd, listenFd]
  Proc.log (.cout ("[server] listening on 0.0.0.0:" ++ toString setup.config.port ++ "\n"))
  update (fun m => { m with
    listenFd := listenFd, epollFd := epollFd, state := .running, ingressPaused := false })
  let result ← eventLoop setup
  shutDown result

def run (setup : Setup) : Proc Nat := do
  match ← (Proc.call (.net .socket) : Proc FdResult) with
  | .error _ => giveUp "createSocket" []
  | .ok listenFd =>
      if !(← (Proc.call (.net (.setsockopt listenFd)) : Proc Bool)) then
        return ← giveUp "setsockopt" [listenFd]
      if !(← (Proc.call (.net (.bind listenFd setup.config.port)) : Proc Bool)) then
        return ← giveUp "bindSocket" [listenFd]
      if !(← (Proc.call (.net (.listen listenFd)) : Proc Bool)) then
        return ← giveUp "listen" [listenFd]
      match ← (Proc.call (.net .epollCreate) : Proc FdResult) with
      | .error _ => giveUp "epoll_create1" [listenFd]
      | .ok epollFd => serve setup listenFd epollFd

end TelemetryServer.Server
