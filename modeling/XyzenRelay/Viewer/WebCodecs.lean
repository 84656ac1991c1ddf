-- SUMMARY: The WebCodecs page: how it configures its decoder and batches NALs into chunks, and what a session has fed the decoder at any point.
import XyzenRelay.Lib.Batches
import XyzenRelay.Lib.Endian
import XyzenRelay.Lib.Machine
import Mathlib.Data.List.Basic
import Mathlib.Tactic.SplitIfs

/-!
# The WebCodecs page

Model of the script of `web-test/viewer.html`: `startCodeLen`, `nalType`,
`codecStringFromSps`, `concat`, `pushNal`, `start` and `stop`. The state is that
of the script's globals, and the calls on the decoder of the session are kept in
order. Reading past the end of a message yields `undefined`, which is 0 under
`&` and an exception under `toString`. Whether a `decode` call throws is not in
the model: `pushNal` logs it and goes on the same way. A `configure` call that
throws, and so leaves `configured` as it was, is left out: a decoder that is open
throws only on an empty codec string.
-/

namespace XyzenRelay.Viewer

/-! ## Reading a NAL -/

def startCodeLen (buf : Bytes) : Nat :=
  if buf[0]? = some 0 ∧ buf[1]? = some 0 ∧ buf[2]? = some 1 then 3
  else if buf[0]? = some 0 ∧ buf[1]? = some 0 ∧ buf[2]? = some 0 ∧ buf[3]? = some 1 then 4
  else 0

/-- `undefined & 0x1f` is 0. -/
def nalType (buf : Bytes) : UInt8 := (buf[startCodeLen buf]?).getD 0 &&& 0x1f

/-- `n.toString(16).padStart(2, '0').toUpperCase()`. -/
def hex (n : UInt8) : List Char := ((Nat.toDigits 16 n.toNat).leftpad 2 '0').map Char.toUpper

/-- The codec string of an SPS, or `none` where a byte is missing and `hex` throws. -/
def codecStringFromSps (spsNal : Bytes) : Option String :=
  let off := startCodeLen spsNal + 1
  match spsNal[off]?, spsNal[off + 1]?, spsNal[off + 2]? with
  | some profile, some constraint, some level =>
    some ("avc1." ++ String.ofList (hex profile ++ hex constraint ++ hex level))
  | _, _, _ => none

/-- `out.set(part, off)`. -/
def setAt (out : Bytes) (off : Nat) (part : Bytes) : Bytes :=
  out.take off ++ part ++ out.drop (off + part.length)

def concat (parts : List Bytes) : Bytes :=
  let n := (parts.map List.length).sum
  (parts.foldl (fun (out, off) p => (setAt out off p, off + p.length)) (List.replicate n 0, 0)).1

/-! ## The page -/

inductive ChunkType where
  | key
  | delta
  deriving DecidableEq, Repr

/-- A call on the decoder of the session. -/
inductive Call where
  | configure (codec : String)
  | decode (type : ChunkType) (data : Bytes)
  deriving DecidableEq, Repr

structure Player where
  configured : Bool
  sawKey : Bool
  nalQueue : List Bytes
  calls : List Call
  deriving DecidableEq, Repr

namespace Player

def fresh : Player := ⟨false, false, [], []⟩

/-- The part of `pushNal` behind the configuration. -/
def feed (p : Player) (buf : Bytes) : Player :=
  let t := nalType buf
  let queue := p.nalQueue ++ [buf]
  if !p.sawKey then
    if t = 5 then
      { p with nalQueue := [], sawKey := true, calls := p.calls ++ [.decode .key (concat queue)] }
    else { p with nalQueue := queue }
  else if t = 7 ∨ t = 8 then { p with nalQueue := queue }
  else
    let type := if t = 5 then .key else .delta
    { p with nalQueue := [], calls := p.calls ++ [.decode type (concat queue)] }

def pushNal (p : Player) (buf : Bytes) : Player :=
  if p.configured then p.feed buf
  else if nalType buf ≠ 7 then p
  else
    match codecStringFromSps buf with
    -- the exception leaves `onmessage`, with nothing changed
    | none => p
    | some codec =>
      feed { p with configured := true, calls := p.calls ++ [.configure codec] } buf

def pushAll (p : Player) (bufs : List Bytes) : Player := bufs.foldl pushNal p

end Player

/-- The page, with the messages of the running session. -/
structure Page where
  /-- The socket is set and still delivers. -/
  connected : Bool
  player : Player
  received : List Bytes

inductive PageAction where
  /-- `peer` is the trimmed input, `webCodecs` whether the window has a `VideoDecoder`. -/
  | start (peer : String) (webCodecs : Bool)
  | stop
  | message (data : Bytes)
  /-- The server closes the socket. -/
  | close
  deriving DecidableEq, Repr

namespace Page

def stop : Page := ⟨false, .fresh, []⟩

/-- `stop()`, and a new socket and decoder unless a check fails. -/
def start (peer : String) (webCodecs : Bool) : Page :=
  if peer = "" then stop
  else if !webCodecs then stop
  else { stop with connected := true }

def step (s : Page) : PageAction → Option Page
  | .start peer webCodecs => some (start peer webCodecs)
  | .stop => some stop
  | .message data =>
    if s.connected then
      some { s with player := s.player.pushNal data, received := s.received ++ [data] }
    else none
  | .close => if s.connected then some { s with connected := false } else none

def machine : Machine Page PageAction := { init := stop, step := step }

end Page

end XyzenRelay.Viewer
