import KiloProxy.Run.System
import Mathlib.Data.List.Infix
import Mathlib.Data.Option.Basic

/-!
# The TCP client of `tun2socks.c`

One connection of an app, relayed through a SOCKS connection: what lwIP received from the
app waits in `buf` until the SOCKS side took it, what the SOCKS side received waits in
`socks_recv_buf` until lwIP took it. Either side can go down first; the other is kept until
its buffer is empty. A handler is a partial function: it has no result where the source
asserts the contrary or touches an object that was freed.
-/

namespace KiloProxy.Engine
set_option autoImplicit false
open KiloProxy.Run

def tcpWnd : Nat := 65535

def clientSocksRecvBufSize : Nat := 8192

/-- `err_t`, as far as the relay tells its values apart. -/
inductive Err where
  | ok
  | mem
  | abrt
  | other
deriving DecidableEq

/-- The lwIP connection: which of the handlers that the relay sets and removes are set. -/
structure Pcb where
  recvFunc : Bool
  sentFunc : Bool
deriving DecidableEq

/-- What passed through the relay so far; it is no part of the program. `appLost` and `socksLost`
say that a side failed or was closed by its peer. -/
structure Passed where
  fromApp : List UInt8
  toSocks : List UInt8
  recved : Nat
  fromSocks : List UInt8
  toApp : List UInt8
  acked : Nat
  appLost : Bool
  socksLost : Bool
deriving DecidableEq

/-- `struct tcp_client`. `buf` and `socksRecvBuf` are the used part of the buffers; `socksSend` is
the length that the SOCKS send interface is busy with, `socksRecv` that its receive interface is. -/
structure TcpClient where
  pcb : Option Pcb
  clientClosed : Bool
  buf : List UInt8
  socksUp : Bool
  socksClosed : Bool
  socksSend : Option Nat
  socksRecv : Bool
  socksRecvBuf : List UInt8
  socksRecvBufUsed : Int
  socksRecvBufSent : Nat
  socksRecvWaiting : Bool
  socksRecvTcpPending : Nat
  freed : Bool
  passed : Passed
deriving DecidableEq

namespace TcpClient

/-! ## Taking a side down -/

def clientDealloc (c : TcpClient) : Option TcpClient :=
  if c.clientClosed ∧ c.socksClosed ∧ ¬ c.freed then some { c with freed := true } else none

/-- `client_handle_freed_client`, over `client_free_socks`. -/
def handleFreedClient (freeSocks : TcpClient → Option TcpClient) (c : TcpClient) : Option TcpClient :=
  if c.clientClosed then none
  else
    let c := { c with clientClosed := true }
    if c.buf ≠ [] ∧ ¬ c.socksClosed then some c
    else if ¬ c.socksClosed then freeSocks c
    else clientDealloc c

/-- `client_free_client`, over `client_free_socks`: `tcp_close`, or `tcp_abort` when it fails. -/
def freeClient (freeSocks : TcpClient → Option TcpClient) (c : TcpClient) : Option TcpClient :=
  if c.clientClosed ∨ c.pcb = none then none
  else handleFreedClient freeSocks { c with pcb := none }

/-- The client goes down with SOCKS unless there is data for it. SOCKS is closed by then, and the
assertion at the top would stop a second `client_free_socks`. -/
def clientFreeSocks (c : TcpClient) : Option TcpClient :=
  if c.socksClosed ∨ (c.socksUp ∧ ¬ c.clientClosed ∧ c.pcb = none) then none
  else
    let pcb := if c.socksUp ∧ ¬ c.clientClosed then c.pcb.map fun p => { p with recvFunc := false } else c.pcb
    let c := { c with pcb := pcb, socksSend := none, socksRecv := false, socksClosed := true }
    if c.socksUp ∧ (0 ≤ c.socksRecvBufUsed ∨ 0 < c.socksRecvTcpPending) ∧ ¬ c.clientClosed then some c
    else if ¬ c.clientClosed then freeClient (fun _ => none) c
    else clientDealloc c

def clientHandleFreedClient : TcpClient → Option TcpClient := handleFreedClient clientFreeSocks

def clientFreeClient : TcpClient → Option TcpClient := freeClient clientFreeSocks

def loseApp (c : TcpClient) : TcpClient := { c with passed := { c.passed with appLost := true } }

def loseSocks (c : TcpClient) : TcpClient := { c with passed := { c.passed with socksLost := true } }

/-- `tcp_abort` in place of `tcp_close`. -/
def clientAbortClient (c : TcpClient) : Option TcpClient := freeClient clientFreeSocks c.loseApp

/-- Both sides at once, when the engine terminates. -/
def clientMurder (c : TcpClient) : Option TcpClient :=
  clientDealloc { c.loseApp.loseSocks with
    pcb := none, clientClosed := true, socksSend := none, socksRecv := false, socksClosed := true }

/-! ## From the app to SOCKS -/

/-- The send interface takes one packet at a time. -/
def clientSendToSocks (c : TcpClient) : Option TcpClient :=
  if c.socksClosed ∨ ¬ c.socksUp ∨ c.buf = [] ∨ c.socksSend ≠ none then none
  else some { c with socksSend := some c.buf.length }

/-- The data is copied behind what is in the buffer. -/
def stored (c : TcpClient) (p : List UInt8) : TcpClient :=
  { c with buf := c.buf ++ p, passed := { c.passed with fromApp := c.passed.fromApp ++ p } }

/-- The data sent is removed from the buffer and, while the client is open, the window moves on. -/
def removed (c : TcpClient) (dataLen : Nat) : TcpClient :=
  { c with
    buf := c.buf.drop dataLen, socksSend := none,
    passed := { c.passed with
      toSocks := c.passed.toSocks ++ c.buf.take dataLen,
      recved := if c.clientClosed then c.passed.recved else c.passed.recved + dataLen } }

/-- lwIP hands over a packet buffer, or none when the app closed. -/
def clientRecvFunc (c : TcpClient) : Option (List UInt8) → Option (Err × TcpClient)
  | none =>
    if c.clientClosed then none
    else (clientFreeClient c.loseApp).map fun c => (.abrt, c)
  | some p =>
    if c.clientClosed ∨ p = [] then none
    else if tcpWnd - c.buf.length < p.length then some (.mem, c)
    else
      let c := c.stored p
      if c.buf.length = p.length ∧ c.socksUp then (clientSendToSocks c).map fun c => (.ok, c)
      else some (.ok, c)

/-- `data_len` bytes went out. -/
def clientSocksSendHandlerDone (c : TcpClient) (dataLen : Nat) : Option TcpClient :=
  if c.socksClosed ∨ ¬ c.socksUp ∨ c.buf = [] ∨ dataLen = 0 ∨ c.buf.length < dataLen ∨
      (¬ c.clientClosed ∧ c.pcb = none) then none
  else
    let c := c.removed dataLen
    if c.buf ≠ [] then some { c with socksSend := some c.buf.length }
    else if c.clientClosed then clientFreeSocks c
    else some c

/-! ## From SOCKS to the app -/

def clientSocksRecvInitiate (c : TcpClient) : Option TcpClient :=
  if c.clientClosed ∨ c.socksClosed ∨ ¬ c.socksUp ∨ c.socksRecvBufUsed ≠ -1 ∨ c.socksRecv then none
  else some { c with socksRecv := true }

/-- lwIP took the next `toWrite` bytes. -/
def written (c : TcpClient) (toWrite : Nat) : TcpClient :=
  { c with
    socksRecvBufSent := c.socksRecvBufSent + toWrite,
    socksRecvTcpPending := c.socksRecvTcpPending + toWrite,
    passed := { c.passed with
      toApp := c.passed.toApp ++ (c.socksRecvBuf.drop c.socksRecvBufSent).take toWrite } }

/-- What `tcp_sndbuf` and `tcp_write` answer in one turn of the loop. -/
structure Turn where
  sndbuf : Nat
  err : Err
deriving DecidableEq

/-- The loop of `client_socks_recv_send_out`; `tcp_sndbuf` is zero where no turn is given. The flag is
that the client was aborted. -/
def writeOut : TcpClient → List Turn → Option (Bool × TcpClient)
  | c, [] => some (false, c)
  | c, t :: ts =>
    let toWrite := min (c.socksRecvBufUsed.toNat - c.socksRecvBufSent) t.sndbuf
    if toWrite = 0 then some (false, c)
    else
      match t.err with
      | .mem => some (false, c)
      | .ok =>
        let c := c.written toWrite
        if (c.socksRecvBufSent : Int) < c.socksRecvBufUsed then writeOut c ts else some (false, c)
      | _ => (clientAbortClient c).map fun c => (true, c)

/-- `output` is what `tcp_output` answers. -/
def clientSocksRecvSendOut (c : TcpClient) (turns : List Turn) (output : Err) : Option (Bool × TcpClient) :=
  if c.clientClosed ∨ c.pcb = none ∨ ¬ c.socksUp ∨ c.socksRecvBufUsed ≤ 0 ∨
      c.socksRecvBufUsed ≤ (c.socksRecvBufSent : Int) ∨ c.socksRecvWaiting then none
  else
    (writeOut c turns).bind fun r =>
      let (aborted, c) := r
      if aborted then some (true, c)
      else if output ≠ .ok then (clientAbortClient c).map fun c => (true, c)
      else if (c.socksRecvBufSent : Int) < c.socksRecvBufUsed then
        if c.socksRecvTcpPending = 0 then (clientAbortClient c).map fun c => (true, c)
        else some (false, { c with socksRecvWaiting := true })
      else some (false, { c with socksRecvBufUsed := -1 })

/-- The bytes that the SOCKS side received. -/
def fetched (c : TcpClient) (data : List UInt8) : TcpClient :=
  { c with socksRecv := false, passed := { c.passed with fromSocks := c.passed.fromSocks ++ data } }

/-- The buffer with the bytes to hand over. -/
def filled (c : TcpClient) (data : List UInt8) : TcpClient :=
  { c with socksRecvBuf := data, socksRecvBufUsed := data.length, socksRecvBufSent := 0, socksRecvWaiting := false }

def clientSocksRecvHandlerDone (c : TcpClient) (data : List UInt8) (turns : List Turn) (output : Err) :
    Option TcpClient :=
  if data = [] ∨ clientSocksRecvBufSize < data.length ∨ c.socksClosed ∨ ¬ c.socksUp ∨ c.socksRecvBufUsed ≠ -1 then
    none
  else
    let c := c.fetched data
    if c.clientClosed then some c
    else
      let c := c.filled data
      (clientSocksRecvSendOut c turns output).bind fun r =>
        let (aborted, c) := r
        if aborted then some c
        else if c.socksRecvBufUsed = -1 then clientSocksRecvInitiate c
        else some c

def acknowledged (c : TcpClient) (len : Nat) : TcpClient :=
  { c with
    socksRecvTcpPending := c.socksRecvTcpPending - len, passed := { c.passed with acked := c.passed.acked + len } }

def resumed (c : TcpClient) : TcpClient := { c with socksRecvWaiting := false }

/-- The app acknowledged `len` bytes. -/
def clientSentFunc (c : TcpClient) (len : Nat) (turns : List Turn) (output : Err) : Option (Err × TcpClient) :=
  if c.clientClosed ∨ ¬ c.socksUp ∨ len = 0 ∨ c.socksRecvTcpPending < len then none
  else
    let c := c.acknowledged len
    if 0 < c.socksRecvBufUsed then
      if ¬ c.socksRecvWaiting ∨ c.socksRecvBufUsed ≤ (c.socksRecvBufSent : Int) then none
      else
        (clientSocksRecvSendOut c.resumed turns output).bind fun r =>
          let (aborted, c) := r
          if aborted then some (.abrt, c)
          else if c.socksRecvTcpPending = 0 then none
          else if c.socksRecvBufUsed = -1 ∧ ¬ c.socksClosed then
            (clientSocksRecvInitiate c).map fun c => (.ok, c)
          else some (.ok, c)
    else if c.socksClosed ∧ c.socksRecvTcpPending = 0 then (clientFreeClient c).map fun c => (.abrt, c)
    else some (.ok, c)

/-! ## Events of the two sides -/

/-- The pcb is gone before the handler is called. -/
def clientErrFunc (c : TcpClient) : Option TcpClient :=
  clientHandleFreedClient { c.loseApp with pcb := none }

inductive SocksEvent where
  | error
  | up
  | errorClosed
deriving DecidableEq

/-- The interfaces are there and nothing is received yet. -/
def cameUp (c : TcpClient) : TcpClient :=
  { c with
    pcb := if c.clientClosed then c.pcb else c.pcb.map fun p => { p with sentFunc := true },
    socksSend := none, socksRecv := false, socksRecvBufUsed := -1, socksRecvTcpPending := 0, socksUp := true }

def clientSocksHandler (c : TcpClient) : SocksEvent → Option TcpClient
  | .error => clientFreeSocks c.loseSocks
  | .up =>
    if c.socksClosed ∨ c.socksUp ∨ (¬ c.clientClosed ∧ c.pcb = none) then none
    else
      let c := c.cameUp
      (if c.buf ≠ [] then clientSendToSocks c else some c).bind fun c =>
        if ¬ c.clientClosed then clientSocksRecvInitiate c else some c
  | .errorClosed =>
    if ¬ c.socksUp then none else clientFreeSocks c.loseSocks

/-- What can call the relay. -/
inductive Call where
  | recv (p : Option (List UInt8))
  | sent (len : Nat) (turns : List Turn) (output : Err)
  | err
  | socks (event : SocksEvent)
  | sendDone (dataLen : Nat)
  | recvDone (data : List UInt8) (turns : List Turn) (output : Err)
  | murder

/-- When it does. lwIP calls the handlers that are set, delivers no more than the window it was given
and acknowledges no more than was written; the SOCKS client reports until it is freed, that it is up
once and that the peer closed only when up; its interfaces finish what they were asked to do. -/
def Calls (c : TcpClient) : Call → Prop
  | .recv (some p) => (∃ pcb ∈ c.pcb, pcb.recvFunc) ∧ p ≠ [] ∧
      c.passed.fromApp.length + p.length ≤ tcpWnd + c.passed.recved
  | .recv none => ∃ pcb ∈ c.pcb, pcb.recvFunc
  | .sent len _ _ => (∃ pcb ∈ c.pcb, pcb.sentFunc) ∧ 0 < len ∧ c.passed.acked + len ≤ c.passed.toApp.length
  | .err => c.pcb ≠ none
  | .socks .error => ¬ c.socksClosed
  | .socks .up => ¬ c.socksClosed ∧ ¬ c.socksUp
  | .socks .errorClosed => ¬ c.socksClosed ∧ c.socksUp
  | .sendDone dataLen => 0 < dataLen ∧ ∃ len ∈ c.socksSend, dataLen ≤ len
  | .recvDone data _ _ => c.socksRecv ∧ data ≠ [] ∧ data.length ≤ clientSocksRecvBufSize
  | .murder => ¬ c.freed

instance (c : TcpClient) (a : Call) : Decidable (c.Calls a) := by
  unfold Calls
  split <;> infer_instance

/-- The handler of a call; it reads the client, which must not be freed. -/
def handle (c : TcpClient) (a : Call) : Option TcpClient :=
  if c.freed then none
  else
    match a with
    | .recv p => (c.clientRecvFunc p).map Prod.snd
    | .sent len turns output => (c.clientSentFunc len turns output).map Prod.snd
    | .err => c.clientErrFunc
    | .socks event => c.clientSocksHandler event
    | .sendDone dataLen => c.clientSocksSendHandlerDone dataLen
    | .recvDone data turns output => c.clientSocksRecvHandlerDone data turns output
    | .murder => c.clientMurder

/-- A client as `listener_accept_func` sets it up. What belongs to the receive buffer is set when
SOCKS comes up and not read before. -/
def accepted : TcpClient where
  pcb := some ⟨true, false⟩
  clientClosed := false
  buf := []
  socksUp := false
  socksClosed := false
  socksSend := none
  socksRecv := false
  socksRecvBuf := []
  socksRecvBufUsed := -1
  socksRecvBufSent := 0
  socksRecvWaiting := false
  socksRecvTcpPending := 0
  freed := false
  passed := ⟨[], [], 0, [], [], 0, false, false⟩

def system : System TcpClient Call where
  init c := c = accepted
  step c a := if c.Calls a then c.handle a else none

end TcpClient
end KiloProxy.Engine
