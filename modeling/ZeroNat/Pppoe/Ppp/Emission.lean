import ZeroNat.Lib.Checked
import ZeroNat.Pppoe.Ppp.Wire

/-!
# The emission of packets

Packets are written into buffers of the length that they say they need, a length byte or a
length field at a time.  What is written is the layout of the packet when every length fits its
field, and nothing faults.
-/

open Checked

namespace ZeroNat.Pppoe.Ppp

/-! ### Writing into a buffer -/

namespace OptionVal

def emit? (o : OptionVal) (buffer : List UInt8) : Option (List UInt8) := do
  let buffer ← set buffer 0 o.code
  let length ← addU8 (← toU8 o.data.length) 2
  let buffer ← set buffer 1 length
  within buffer 2 buffer.length (copy o.data)

end OptionVal

/-- The options are written one after the other, each into its part of the buffer. -/
def emitOptions? : List OptionVal → List UInt8 → Option (List UInt8)
  | [], buffer => some buffer
  | o :: opts, buffer => do
    let head ← slice buffer 0 o.bufferLen
    let head ← o.emit? head
    let tail ← slice buffer o.bufferLen buffer.length
    let tail ← emitOptions? opts tail
    return head ++ tail

namespace PppPayload

def emit? : PppPayload → List UInt8 → Option (List UInt8)
  | raw data, buffer => copy data buffer
  | owned data, buffer => copy data buffer
  | pap user pass, buffer => do
    let buffer ← set buffer 0 (← toU8 user.length)
    let buffer ← within buffer 1 buffer.length fun tail =>
      within tail 0 user.length (copy user)
    let buffer ← set buffer (1 + user.length) (← toU8 pass.length)
    within buffer (1 + user.length + 1) buffer.length (copy pass)
  | options opts, buffer => emitOptions? opts buffer

end PppPayload

namespace Payload

def emit? : Payload → List UInt8 → Option (List UInt8)
  | raw data, buffer => copy data buffer
  | ppp code id payload, buffer => do
    let buffer ← set buffer 0 code.toU8
    let buffer ← set buffer 1 id
    let length ← addU16 (← toU16 payload.bufferLen) 4
    let buffer ← within buffer 2 4 (copy (u16ToBe length))
    within buffer 4 buffer.length payload.emit?

end Payload

namespace Packet

def emit? (p : Packet) (buffer : List UInt8) : Option (List UInt8) := do
  let buffer ← within buffer 0 2 (copy (u16ToBe p.proto.toU16))
  within buffer 2 buffer.length p.payload.emit?

end Packet

/-! ### When every length fits -/

/-- The length bytes of the body of a packet hold its lengths. -/
def PppPayload.Fits : PppPayload → Prop
  | raw _ => True
  | owned _ => True
  | pap user pass => user.length < 2 ^ 8 ∧ pass.length < 2 ^ 8
  | options opts => ∀ o ∈ opts, o.data.length + 2 < 2 ^ 8

def Payload.Fits : Payload → Prop
  | raw _ => True
  | ppp _ _ payload => payload.Fits

/-- The length field of a packet holds its length, and so does that of the frame it is sent
in. -/
def Packet.Fits (p : Packet) : Prop :=
  p.payload.Fits ∧ p.bufferLen < 2 ^ 16

theorem OptionVal.emit?_eq {o : OptionVal} {buffer : List UInt8}
    (hlen : buffer.length = o.bufferLen) (h : o.data.length + 2 < 2 ^ 8) :
  o.emit? buffer = some o.emit
  := by
  rw [bufferLen] at hlen
  match buffer with
  | [] => simp at hlen; omega
  | [a] => simp at hlen; omega
  | a :: b :: rest =>
    have hrest : rest.length = o.data.length := by
      simp only [List.length_cons] at hlen
      omega
    have hcode : set (a :: b :: rest) 0 o.code = some (o.code :: b :: rest) :=
      set_eq (a := []) rfl rfl _
    have hlength : ∀ v, set (o.code :: b :: rest) 1 v = some (o.code :: v :: rest) :=
      set_eq (a := [o.code]) rfl rfl
    have hdata : ∀ v, within (o.code :: v :: rest) 2 (o.code :: v :: rest).length (copy o.data)
        = some (o.code :: v :: o.data) := by
      intro v
      refine (within_tail (a := [o.code, v]) rfl rfl _).trans ?_
      rw [copy_eq hrest]
      rfl
    rw [emit?, hcode, toU8_eq (by omega)]
    simp only [Option.bind_eq_bind, Option.bind_some]
    rw [addU8_eq h, Option.bind_some, hlength, Option.bind_some, hdata]
    rfl

theorem emitOptions?_eq {opts : List OptionVal} {buffer : List UInt8}
    (hlen : buffer.length = (opts.map OptionVal.bufferLen).sum)
    (h : ∀ o ∈ opts, o.data.length + 2 < 2 ^ 8) :
  emitOptions? opts buffer = some (opts.flatMap OptionVal.emit)
  := by
  induction opts generalizing buffer with
  | nil =>
      obtain rfl := List.eq_nil_of_length_eq_zero hlen
      rfl
  | cons o opts ih =>
      rw [List.map_cons, List.sum_cons] at hlen
      have hle : o.bufferLen ≤ buffer.length := by omega
      rw [emitOptions?, slice_to hle, slice_from hle]
      simp only [Option.bind_eq_bind, Option.bind_some]
      rw [OptionVal.emit?_eq (by simp; omega) (h o List.mem_cons_self), Option.bind_some,
        ih (by simp; omega) fun o' ho' => h o' (List.mem_cons_of_mem o ho')]
      rfl

theorem PppPayload.emit?_eq {payload : PppPayload} {buffer : List UInt8}
    (hlen : buffer.length = payload.bufferLen) (h : payload.Fits) :
  payload.emit? buffer = some payload.emit
  := by
  cases payload with
  | raw data => exact copy_eq hlen
  | owned data => exact copy_eq hlen
  | options opts => exact emitOptions?_eq hlen h
  | pap user pass =>
      obtain ⟨huser, hpass⟩ := h
      rw [bufferLen] at hlen
      obtain ⟨x, us, y, ps, rfl, hus, hps⟩ : ∃ x us y ps, buffer = x :: (us ++ (y :: ps))
          ∧ us.length = user.length ∧ ps.length = pass.length := by
        match buffer with
        | [] => simp at hlen; omega
        | x :: rest =>
          have hrest : rest.length = user.length + (pass.length + 1) := by
            simp only [List.length_cons] at hlen
            omega
          obtain ⟨y, ps, hys⟩ := List.exists_cons_of_length_eq_add_one
            (l := rest.drop user.length) (n := pass.length) (by simp; omega)
          have hps : (rest.drop user.length).length = pass.length + 1 := by
            simp
            omega
          rw [hys, List.length_cons] at hps
          refine ⟨x, rest.take user.length, y, ps, ?_, by simp; omega, by omega⟩
          rw [← hys, List.take_append_drop]
      have hu : ∀ v, within (v :: (us ++ (y :: ps))) 1 (v :: (us ++ (y :: ps))).length
          (fun tail => within tail 0 user.length (copy user))
            = some (v :: (user ++ (y :: ps))) := by
        intro v
        refine (within_tail (a := [v]) rfl rfl _).trans ?_
        have hin : within (us ++ (y :: ps)) 0 user.length (copy user)
            = some (user ++ (y :: ps)) := by
          refine (within_eq (a := []) (b := us) rfl rfl (by simpa using hus) _).trans ?_
          rw [copy_eq hus]
          rfl
        exact congrArg _ hin
      have hy : ∀ v w, set (v :: (user ++ (y :: ps))) (1 + user.length) w
          = some (v :: (user ++ (w :: ps))) := by
        intro v w
        apply set_eq (a := v :: user) rfl
        rw [List.length_cons, Nat.add_comm]
      have hp : ∀ v w, within (v :: (user ++ (w :: ps))) (1 + user.length + 1)
          (v :: (user ++ (w :: ps))).length (copy pass) = some (v :: (user ++ (w :: pass))) := by
        intro v w
        refine (within_tail (a := v :: (user ++ [w])) (b := ps) (by simp) (by simp; omega) _).trans ?_
        rw [copy_eq hps]
        simp
      have hx : ∀ v, set (x :: (us ++ (y :: ps))) 0 v = some (v :: (us ++ (y :: ps))) :=
        set_eq (a := []) rfl rfl
      rw [emit?, toU8_eq huser, toU8_eq hpass]
      simp only [Option.bind_eq_bind, Option.bind_some]
      rw [hx, Option.bind_some, hu, Option.bind_some, hy, Option.bind_some, hp]
      simp [emit]

theorem Payload.emit?_eq {payload : Payload} {buffer : List UInt8}
    (hlen : buffer.length = payload.bufferLen) (h : payload.Fits)
    (hshort : payload.bufferLen < 2 ^ 16) :
  payload.emit? buffer = some payload.emit
  := by
  cases payload with
  | raw data => exact copy_eq hlen
  | ppp code id payload =>
      rw [bufferLen] at hlen hshort
      match buffer with
      | [] => simp at hlen; omega
      | [_] => simp at hlen; omega
      | [_, _] => simp at hlen; omega
      | [_, _, _] => simp at hlen; omega
      | a :: b :: c :: d :: rest =>
        have hrest : rest.length = payload.bufferLen := by
          simp only [List.length_cons] at hlen
          omega
        have hcode : set (a :: b :: c :: d :: rest) 0 code.toU8
            = some (code.toU8 :: b :: c :: d :: rest) := set_eq (a := []) rfl rfl _
        have hid : set (code.toU8 :: b :: c :: d :: rest) 1 id
            = some (code.toU8 :: id :: c :: d :: rest) := set_eq (a := [code.toU8]) rfl rfl _
        have hlength : ∀ n, within (code.toU8 :: id :: c :: d :: rest) 2 4 (copy (u16ToBe n))
            = some ([code.toU8, id] ++ (u16ToBe n ++ rest)) := by
          intro n
          refine (within_eq (a := [code.toU8, id]) (b := [c, d]) rfl rfl rfl _).trans ?_
          rw [copy_eq (by rw [length_u16ToBe]; rfl)]
          rfl
        have hbody : ∀ n, within ([code.toU8, id] ++ (u16ToBe n ++ rest)) 4
            ([code.toU8, id] ++ (u16ToBe n ++ rest)).length payload.emit?
              = some ([code.toU8, id] ++ u16ToBe n ++ payload.emit) := by
          intro n
          refine (within_tail (a := [code.toU8, id] ++ u16ToBe n) (b := rest) (by simp) rfl
            _).trans ?_
          rw [PppPayload.emit?_eq hrest h]
          rfl
        rw [emit?, hcode, toU16_eq (by omega)]
        simp only [Option.bind_eq_bind, Option.bind_some]
        have hadd : payload.bufferLen + UInt16.toNat 4 < 2 ^ 16 := by
          rw [Nat.add_comm]
          exact hshort
        rw [hid, Option.bind_some, addU16_eq hadd, Option.bind_some, hlength, Option.bind_some,
          hbody]
        rfl

theorem PppPayload.length_emit (payload : PppPayload) :
  payload.emit.length = payload.bufferLen
  := by
  cases payload with
  | raw data => rfl
  | owned data => rfl
  | pap user pass => simp [emit, bufferLen]; omega
  | options opts =>
      rw [emit, bufferLen, List.length_flatMap]
      congr 2
      funext o
      simp [OptionVal.emit, OptionVal.bufferLen]
      omega

theorem Packet.length_emit (p : Packet) :
  p.emit.length = p.bufferLen
  := by
  cases hp : p.payload with
  | raw data => simp [emit, bufferLen, hp, Payload.emit, Payload.bufferLen]
  | ppp code id payload =>
      simp [emit, bufferLen, hp, Payload.emit, Payload.bufferLen, PppPayload.length_emit]
      omega

/-- A packet that fits is written out as it is laid out. -/
theorem Packet.emit?_eq {p : Packet} (h : p.Fits) :
  p.emit? (List.replicate p.bufferLen 0) = some p.emit
  := by
  have hlen : p.payload.bufferLen < 2 ^ 16 :=
    Nat.lt_of_le_of_lt (Nat.le_add_left _ 2) h.2
  have hproto : within (List.replicate p.bufferLen 0) 0 2 (copy (u16ToBe p.proto.toU16))
      = some (u16ToBe p.proto.toU16 ++ List.replicate p.payload.bufferLen 0) := by
    refine (within_eq (a := []) (b := [0, 0]) (c := List.replicate p.payload.bufferLen 0)
      ?_ rfl rfl _).trans ?_
    · rw [bufferLen, List.replicate_add]
      rfl
    · rw [copy_eq (by rw [length_u16ToBe]; rfl)]
      rfl
  rw [emit?, hproto]
  simp only [Option.bind_eq_bind, Option.bind_some]
  rw [within_tail rfl (length_u16ToBe _),
    Payload.emit?_eq List.length_replicate h.1 hlen]
  rfl

end ZeroNat.Pppoe.Ppp
