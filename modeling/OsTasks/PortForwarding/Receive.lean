import OsTasks.PortForwarding.FrameBytes
import OsTasks.PortForwarding.Slots

/-!
# The frame at the front of the tunnel

What `recv_from_tunnel` sees at the front of the tunnel's input when it takes a new frame.

## Main definitions

* `TunnelEvent`, `payload`: what a frame carries.
* `frameAt`: the frame at the front of a sequence of bytes.

## Main results

* `nextFrame_eq`: what is done depends on the first four bytes.
-/

namespace OsTasks.PortForwarding

/-! ### Frames in a sequence of bytes -/

/-- What a frame carries. -/
inductive TunnelEvent
  | command (cmd arg : UInt8)
  | data (id : UInt8) (bytes : List UInt8)
  deriving DecidableEq

def TunnelEvent.frame : TunnelEvent → List UInt8
  | .command cmd arg => commandFrame cmd arg
  | .data id bytes => dataFrame id bytes

/-- Data frames are about connections, not about the tunnel. -/
def TunnelEvent.Valid : TunnelEvent → Prop
  | .command _ _ => True
  | .data id _ => id ≠ 0

/-- The bytes that events carry for a connection. -/
def payload (id : UInt8) (events : List TunnelEvent) : List UInt8 :=
  events.flatMap fun
    | .data i bytes => if i = id then bytes else []
    | .command _ _ => []

theorem payload_append (id : UInt8) (l₁ l₂ : List TunnelEvent) :
    payload id (l₁ ++ l₂) = payload id l₁ ++ payload id l₂ := List.flatMap_append

@[simp] theorem payload_nil (id : UInt8) : payload id [] = [] := rfl

theorem payload_cons_data (id i : UInt8) (bytes : List UInt8) (l : List TunnelEvent) :
    payload id (.data i bytes :: l) = (if i = id then bytes else []) ++ payload id l := rfl

/-! ### One frame -/

/-- Changing an object commutes with following a pointer. -/
theorem lookup_modifyConn (slots : List Slot) (conns : Conns) (ref : ℕ)
    (f : Connection → Connection) (id : ℕ) :
    lookup (modifyConn slots ref f) conns id = (lookup slots conns id).map (modifySlot ref f) := by
  unfold lookup
  cases conns id with
  | none => rfl
  | some r =>
    change findSlot _ r = (findSlot slots r).map _
    rw [findSlot, modifyConn_eq_map, List.find?_map]
    congr 2
    funext s
    simp

variable {handler : Controller → Command → Controller} {env : PumpEnv} {conns : Conns}
  {c : Controller} {tunnel s : Slot}

/-- Three bytes or less are left in the tunnel. -/
theorem nextFrame_of_few (ht : lookup c.slots conns 0 = some tunnel)
    (hfew : tunnel.conn.inBuf.length ≤ 3) : nextFrame handler env conns c = .ok c := by
  unfold nextFrame
  rw [ht]
  exact if_neg (Nat.not_lt.mpr hfew)

/-- What `nextFrame` reads before it decides. -/
theorem peek_three {buf : RoundBuffer} {b₀ b₁ b₂ b₃ : UInt8} {rest : List UInt8}
    (h : buf.contents = b₀ :: b₁ :: b₂ :: b₃ :: rest) :
    3 < bufDataLength buf ∧ ((bufPeek buf 3).getD []).getD 0 0 = b₀ ∧
      ((bufPeek buf 3).getD []).getD 1 0 = b₁ ∧ ((bufPeek buf 3).getD []).getD 2 0 = b₂ := by
  have hlen : buf.length = rest.length + 4 := by
    rw [← buf.length_contents, h]
    rfl
  rw [bufPeek_eq (by omega), h]
  refine ⟨?_, rfl, rfl, rfl⟩
  unfold bufDataLength
  omega

/-- The tunnel after the start of a data frame has been taken. -/
def Slot.afterStart (tunnel : Slot) : Slot :=
  { tunnel with conn := { tunnel.conn with inBuf := bufAdvanceReadPtr tunnel.conn.inBuf 2 } }

/-- The state after a command frame has been taken and handled. -/
def Controller.handleFrame (c : Controller) (handler : Controller → Command → Controller)
    (tunnel : Slot) (cmd arg : UInt8) : Controller :=
  (handler ((c.modify tunnel.ref fun conn =>
      { conn with inBuf := bufAdvanceReadPtr tunnel.conn.inBuf 3 }).note (.received cmd arg))
    ⟨cmd, arg, 0⟩).modify tunnel.ref fun conn =>
      { conn with inBuf := bufAdvanceReadPtr conn.inBuf 2 }

/-- `nextFrame`, when more than three bytes are there. -/
theorem nextFrame_eq (ht : lookup c.slots conns 0 = some tunnel) {b₀ b₁ b₂ b₃ : UInt8}
    {bytes : List UInt8} (h : tunnel.conn.inBuf.contents = b₀ :: b₁ :: b₂ :: b₃ :: bytes) :
    nextFrame handler env conns c =
      if b₀ ≠ endByte then .error .wrongStart
      else if b₁ = 0 then
        if bytes.length = 0 then .ok c else .ok (c.handleFrame handler tunnel b₂ b₃)
      else
        match lookup c.slots conns b₁.toNat with
        | none => .error .closedConnection
        | some target =>
          .ok (let r := decodeTo env b₁.toNat tunnel.afterStart target c
            if r.1 then r.2 else r.2.setSendingTo b₁.toNat) := by
  obtain ⟨havail, h₀, h₁, h₂⟩ := peek_three h
  have hlen : bufDataLength tunnel.conn.inBuf < 5 ↔ bytes.length = 0 := by
    rw [bufDataLength, ← RoundBuffer.length_contents, h]
    simp only [List.length_cons]
    omega
  have harg : (bufPeekByte (bufAdvanceReadPtr tunnel.conn.inBuf 3)).getD 0 = b₃ := by
    rw [bufPeekByte_eq, contents_bufAdvanceReadPtr, h]
    rfl
  unfold nextFrame
  rw [ht]
  dsimp only
  rw [if_pos havail, h₀, h₁, h₂, harg]
  simp only [hlen]
  rfl

/-! ### Any frame -/

/-- The rest of a command frame, behind its id. -/
def commandAt : List UInt8 → Option (TunnelEvent × List UInt8)
  | cmd :: arg :: _ :: rest => some (.command cmd arg, rest)
  | _ => none

/-- The frame at the front of the bytes, and what is behind it. -/
def frameAt : List UInt8 → Option (TunnelEvent × List UInt8)
  | b :: id :: bytes =>
    if b ≠ endByte then none
    else if id = 0 then commandAt bytes
    else (unstuff endByte escByte bytes).map fun r => (.data id r.1, r.2)
  | _ => none

end OsTasks.PortForwarding
