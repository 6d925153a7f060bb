import Mathlib.Data.Nat.Notation
import Springtale.Connector.Capability
import Springtale.Lib.Checked
import Springtale.Lib.Frame

/-! A call of a WASM connector: what the host writes into the guest's memory, and what it reads from
where the guest points. -/
namespace Springtale.Connector

open Springtale.Lib

/-- The host's words have 64 bits. -/
def usizeBound : Nat := 18446744073709551616

def wasmPageSize : Nat := 65536

/-- Guests leave their first kilobyte to the host. -/
def actionOffset : Nat := 1024

/-- The texts that a call passes on. Both are in memory, apart from each other and from the first
page, which no program has. -/
structure GuestCall where
  action : List UInt8
  input : List UInt8
  apart : 4096 + action.length + input.length ≤ usizeBound

/-- What the instance exports, and what wasmtime answers: a growth by pages, and a call with the
memory after it. -/
structure Guest where
  execute : Except String (List UInt8 → Int32 → Int32 → Int32 → Int32 →
    List UInt8 × Except ConnectorError Int32)
  memory : Option (List UInt8)
  grow : Nat → Except String Unit

inductive HostExit where
  | fault (f : Fault)
  | connector (e : ConnectorError)
  | serialization (message : String)

def checked {α : Type} : Checked α → Except HostExit α
  | .ok a => .ok a
  | .error f => .error (.fault f)

def sandbox {α : Type} (message : String) : Except HostExit α :=
  .error (.connector (.sandbox message))

namespace Guest

variable (guest : Guest) (call : GuestCall)

/-- New pages are zero. -/
def growMemory (memory : List UInt8) (totalNeeded : Nat) : Except HostExit (List UInt8) := do
  let missing ← checked (subWord totalNeeded memory.length)
  let pagesNeeded ← checked (addWord usizeBound (missing / wasmPageSize) 1)
  match guest.grow pagesNeeded with
  | .ok () => .ok (memory ++ List.replicate (pagesNeeded * wasmPageSize) 0)
  | .error e => sandbox ("memory grow failed: " ++ e)

def writeInput (memory : List UInt8) : Except HostExit (List UInt8) := do
  let inputOffset ← checked (addWord usizeBound actionOffset call.action.length)
  let totalNeeded ← checked (addWord usizeBound inputOffset call.input.length)
  let memory ←
    if totalNeeded > memory.length then guest.growMemory memory totalNeeded else .ok memory
  let actionEnd ← checked (addWord usizeBound actionOffset call.action.length)
  let memory ← checked (copyInto memory actionOffset actionEnd call.action)
  let inputEnd ← checked (addWord usizeBound inputOffset call.input.length)
  checked (copyInto memory inputOffset inputEnd call.input)

/-- `i32::try_from`. -/
def toI32 (what : String) (n : Nat) : Except HostExit Int32 :=
  if n < 2147483648 then .ok (Int32.ofNat n) else sandbox (what ++ " exceeds i32")

/-- The four numbers that the guest gets. -/
def arguments : Except HostExit (Int32 × Int32 × Int32 × Int32) := do
  let inputOffset ← checked (addWord usizeBound actionOffset call.action.length)
  let a ← toI32 "action offset" actionOffset
  let b ← toI32 "action length" call.action.length
  let c ← toI32 "input offset" inputOffset
  let d ← toI32 "input length" call.input.length
  .ok (a, b, c, d)

/-- The bytes behind the length that stands where the guest points. -/
def readResult (maxResponseBytes : Nat) (memory : List UInt8) (resultPtr : Int32) :
    Except HostExit (List UInt8) :=
  if resultPtr.toInt < 0 then sandbox "negative result pointer"
  else do
    let rp := resultPtr.toInt.toNat
    let headEnd ← checked (addWord usizeBound rp 4)
    if headEnd > memory.length then sandbox "result pointer out of bounds"
    else
      let b ← checked (byteAt memory rp)
      let b₁ ← checked (addWord usizeBound rp 1 >>= byteAt memory)
      let b₂ ← checked (addWord usizeBound rp 2 >>= byteAt memory)
      let b₃ ← checked (addWord usizeBound rp 3 >>= byteAt memory)
      let resultLen := ofLeBytes [b, b₁, b₂, b₃]
      if resultLen > maxResponseBytes then
        sandbox (s!"response too large: {resultLen} bytes " ++ s!"(max {maxResponseBytes})")
      else
        let resultStart ← checked (addWord usizeBound rp 4)
        let resultEnd ← checked (addWord usizeBound resultStart resultLen)
        if resultEnd > memory.length then sandbox "result data out of bounds"
        else checked (slice memory resultStart resultEnd)

/-- The call itself; `fromUtf8` and `fromStr` read the guest's bytes as JSON text. -/
def executeChecked {ActionResult : Type} (maxResponseBytes : Nat)
    (fromUtf8 : List UInt8 → Except String String) (fromStr : String → Except String ActionResult) :
    Except HostExit ActionResult :=
  match guest.execute with
  | .error e => sandbox ("missing 'execute' export: " ++ e)
  | .ok execute =>
    match guest.memory with
    | none => sandbox "guest has no 'memory' export"
    | some memory => do
      let memory ← guest.writeInput call memory
      let (a, b, c, d) ← arguments call
      match execute memory a b c d with
      | (_, .error e) => .error (.connector e)
      | (memory, .ok resultPtr) =>
        let bytes ← readResult maxResponseBytes memory resultPtr
        match fromUtf8 bytes with
        | .error e => sandbox ("invalid UTF-8 in result: " ++ e)
        | .ok text =>
          match fromStr text with
          | .error e => .error (.serialization ("invalid result JSON: " ++ e))
          | .ok result => .ok result

end Guest

/-- The two texts stand one behind the other in a memory that holds them, and nothing else of it has
changed. -/
structure GuestCall.Holds (call : GuestCall) (memory memory' : List UInt8) : Prop where
  fits : actionOffset + call.action.length + call.input.length ≤ memory.length
  content : memory' = memory.take actionOffset ++ call.action ++ call.input ++
    memory.drop (actionOffset + call.action.length + call.input.length)

/-- The numbers say where the texts stand and how long they are. -/
structure GuestCall.Told (call : GuestCall) (a b c d : Int32) : Prop where
  actionOffset : a.toInt = Connector.actionOffset
  actionLength : b.toInt = call.action.length
  inputOffset : c.toInt = (Connector.actionOffset + call.action.length : Nat)
  inputLength : d.toInt = call.input.length

/-- The bytes stand in the memory behind their length. -/
structure ReadFrom (maxResponseBytes : Nat) (memory : List UInt8) (resultPtr : Int32)
    (bytes : List UInt8) (rp : Nat) : Prop where
  pointer : resultPtr.toInt = rp
  within : rp + 4 + bytes.length ≤ memory.length
  length : bytes.length = ofLeBytes ((memory.drop rp).take 4)
  bounded : bytes.length ≤ maxResponseBytes
  content : bytes = (memory.drop (rp + 4)).take bytes.length

@[simp]
theorem checked_ok {α : Type} (a : α) : checked (.ok a) = .ok a := rfl

@[simp]
theorem ok_bind {ε α β : Type} (a : α) (f : α → Except ε β) : (Except.ok a >>= f) = f a := rfl

@[simp]
theorem sandbox_bind {α β : Type} (message : String) (f : α → Except HostExit β) :
    (sandbox message >>= f) = sandbox message := rfl

namespace Guest

variable {guest : Guest} {call : GuestCall}

/-- The sums of the call fit a word. -/
theorem addWord_input : addWord usizeBound (actionOffset + call.action.length) call.input.length =
    .ok (actionOffset + call.action.length + call.input.length) := by
  have happart := call.apart
  apply addWord_ok
  rw [actionOffset]
  omega

theorem addWord_action : addWord usizeBound actionOffset call.action.length =
    .ok (actionOffset + call.action.length) := by
  have happart := call.apart
  apply addWord_ok
  rw [actionOffset]
  omega

/-- A growth gives at least the bytes that are missing. -/
theorem growMemory_cases (guest : Guest) {memory : List UInt8} {totalNeeded : Nat}
    (hword : totalNeeded < usizeBound) (hmissing : memory.length < totalNeeded) :
    (∃ message, guest.growMemory memory totalNeeded = sandbox message) ∨
      ∃ pages, totalNeeded ≤ (memory ++ List.replicate (pages * wasmPageSize) 0).length ∧
        guest.growMemory memory totalNeeded =
          .ok (memory ++ List.replicate (pages * wasmPageSize) 0) := by
  have hsub : subWord totalNeeded memory.length = .ok (totalNeeded - memory.length) :=
    subWord_ok (Nat.le_of_lt hmissing)
  have hpages : addWord usizeBound ((totalNeeded - memory.length) / wasmPageSize) 1 =
      .ok ((totalNeeded - memory.length) / wasmPageSize + 1) := by
    apply addWord_ok
    rw [wasmPageSize, usizeBound] at *
    omega
  rw [growMemory, hsub, checked_ok, ok_bind, hpages, checked_ok, ok_bind]
  cases guest.grow ((totalNeeded - memory.length) / wasmPageSize + 1) with
  | error e => exact .inl ⟨_, rfl⟩
  | ok u =>
    refine .inr ⟨_, ?_, rfl⟩
    rw [List.length_append, List.length_replicate, wasmPageSize]
    omega

theorem writeInput_cases (guest : Guest) (call : GuestCall) (memory : List UInt8) :
    (∃ message, guest.writeInput call memory = sandbox message) ∨
      ∃ memory' pages, guest.writeInput call memory = .ok memory' ∧
        call.Holds (memory ++ List.replicate (pages * wasmPageSize) 0) memory' := by
  have hword : actionOffset + call.action.length + call.input.length < usizeBound := by
    have happart := call.apart
    rw [actionOffset]
    omega
  have hcopy : ∀ grown : List UInt8,
      actionOffset + call.action.length + call.input.length ≤ grown.length →
      (checked (copyInto grown actionOffset (actionOffset + call.action.length) call.action) >>=
        fun memory => checked (copyInto memory (actionOffset + call.action.length)
          (actionOffset + call.action.length + call.input.length) call.input)) =
      .ok (grown.take actionOffset ++ call.action ++ call.input ++
        grown.drop (actionOffset + call.action.length + call.input.length)) := by
    intro grown hfits
    rw [copyInto_ok (by omega), checked_ok, ok_bind, copyInto_behind hfits, checked_ok]
  rw [writeInput]
  simp only [addWord_action, addWord_input, checked_ok, ok_bind]
  by_cases hmissing : memory.length < actionOffset + call.action.length + call.input.length
  · rw [if_pos hmissing]
    rcases growMemory_cases guest hword hmissing with
      ⟨message, hgrow⟩ | ⟨pages, hfits, hgrow⟩
    · exact .inl ⟨message, by rw [hgrow, sandbox_bind]⟩
    · refine .inr ⟨_, pages, ?_, hfits, rfl⟩
      rw [hgrow, ok_bind, hcopy _ hfits]
  · rw [if_neg hmissing]
    refine .inr ⟨_, 0, ?_, ?_, rfl⟩
    · rw [Nat.zero_mul, List.replicate_zero, List.append_nil, hcopy _ (by omega)]
    · rw [Nat.zero_mul, List.replicate_zero, List.append_nil]
      omega

theorem toI32_cases (what : String) (n : Nat) :
    (∃ message, toI32 what n = sandbox message) ∨
      ∃ i : Int32, toI32 what n = .ok i ∧ i.toInt = n := by
  rw [toI32]
  split
  · rename_i hlt
    exact .inr ⟨_, rfl, Int32.toInt_ofNat_of_lt hlt⟩
  · exact .inl ⟨_, rfl⟩

theorem arguments_cases (call : GuestCall) :
    (∃ message, arguments call = sandbox message) ∨
      ∃ a b c d : Int32, arguments call = .ok (a, b, c, d) ∧ call.Told a b c d := by
  rw [arguments]
  simp only [addWord_action, checked_ok, ok_bind]
  rcases toI32_cases "action offset" actionOffset with ⟨message, h⟩ | ⟨a, h, ha⟩
  · exact .inl ⟨message, by rw [h, sandbox_bind]⟩
  rcases toI32_cases "action length" call.action.length with ⟨message, h'⟩ | ⟨b, h', hb⟩
  · exact .inl ⟨message, by rw [h, ok_bind, h', sandbox_bind]⟩
  rcases toI32_cases "input offset" (actionOffset + call.action.length) with
    ⟨message, h''⟩ | ⟨c, h'', hc⟩
  · exact .inl ⟨message, by rw [h, ok_bind, h', ok_bind, h'', sandbox_bind]⟩
  rcases toI32_cases "input length" call.input.length with ⟨message, h'''⟩ | ⟨d, h''', hd⟩
  · exact .inl ⟨message, by rw [h, ok_bind, h', ok_bind, h'', ok_bind, h''', sandbox_bind]⟩
  · exact .inr ⟨a, b, c, d, by rw [h, ok_bind, h', ok_bind, h'', ok_bind, h''', ok_bind], ha, hb,
      hc, hd⟩

theorem take_four {memory : List UInt8} {rp : Nat} (h : rp + 4 ≤ memory.length) :
    (memory.drop rp).take 4 = [memory.get ⟨rp, by omega⟩, memory.get ⟨rp + 1, by omega⟩,
      memory.get ⟨rp + 2, by omega⟩, memory.get ⟨rp + 3, by omega⟩] := by
  apply List.ext_getElem
  · simp only [List.length_take, List.length_drop, List.length_cons, List.length_nil]
    omega
  · intro i hi hi'
    have hlt : i < 4 := hi'
    rw [List.getElem_take, List.getElem_drop]
    match i, hlt with
    | 0, _ => rfl
    | 1, _ => rfl
    | 2, _ => rfl
    | 3, _ => rfl

/-- Four bytes make a length of 32 bits. -/
theorem ofLeBytes_lt (b b₁ b₂ b₃ : UInt8) : ofLeBytes [b, b₁, b₂, b₃] < 4294967296 := by
  have h := b.toNat_lt
  have h₁ := b₁.toNat_lt
  have h₂ := b₂.toNat_lt
  have h₃ := b₃.toNat_lt
  simp only [ofLeBytes]
  omega

/-- The host reads what the guest points at where it lies in the memory, and refuses otherwise. -/
theorem readResult_cases (maxResponseBytes : Nat) (memory : List UInt8) (resultPtr : Int32) :
    (∃ message, readResult maxResponseBytes memory resultPtr = sandbox message) ∨
      ∃ bytes rp, readResult maxResponseBytes memory resultPtr = .ok bytes ∧
        ReadFrom maxResponseBytes memory resultPtr bytes rp := by
  by_cases hneg : resultPtr.toInt < 0
  · exact .inl ⟨_, if_pos hneg⟩
  obtain ⟨rp, hrp⟩ := Int.eq_ofNat_of_zero_le (Int.not_lt.mp hneg)
  have hlt := resultPtr.toInt_lt
  have hsum : ∀ n ≤ 4, addWord usizeBound rp n = .ok (rp + n) := by
    intro n hn
    apply addWord_ok
    rw [usizeBound]
    omega
  rw [readResult, if_neg hneg]
  simp only [hrp, Int.toNat_natCast, hsum 1 (by omega), hsum 2 (by omega), hsum 3 (by omega),
    hsum 4 (by omega), checked_ok, ok_bind]
  by_cases hhead : memory.length < rp + 4
  · exact .inl ⟨_, if_pos hhead⟩
  have hbyte : ∀ n (hn : n < 4), byteAt memory (rp + n) = .ok (memory.get ⟨rp + n, by omega⟩) :=
    fun n hn => byteAt_ok (by omega)
  have hfour := take_four (Nat.not_lt.mp hhead)
  have hword := ofLeBytes_lt (memory.get ⟨rp, by omega⟩) (memory.get ⟨rp + 1, by omega⟩)
    (memory.get ⟨rp + 2, by omega⟩) (memory.get ⟨rp + 3, by omega⟩)
  rw [← hfour] at hword
  simp only [gt_iff_lt, if_neg hhead, byteAt_ok (show rp < memory.length by omega),
    hbyte 1 (by omega), hbyte 2 (by omega), hbyte 3 (by omega), checked_ok, ok_bind, ← hfour]
  generalize hlength : ofLeBytes ((memory.drop rp).take 4) = n at hword
  have hend : addWord usizeBound (rp + 4) n = .ok (rp + 4 + n) := by
    apply addWord_ok
    rw [usizeBound]
    omega
  simp only [hend, checked_ok, ok_bind]
  by_cases hlarge : maxResponseBytes < n
  · exact .inl ⟨_, if_pos hlarge⟩
  rw [if_neg hlarge]
  by_cases hout : memory.length < rp + 4 + n
  · exact .inl ⟨_, if_pos hout⟩
  rw [if_neg hout, slice_ok (by omega) (by omega), checked_ok, Nat.add_sub_cancel_left]
  have hbytes : ((memory.drop (rp + 4)).take n).length = n := by
    rw [List.length_take, List.length_drop]
    omega
  refine .inr ⟨_, rp, rfl, hrp, ?_, ?_, ?_, ?_⟩
  · rw [hbytes]
    omega
  · rw [hbytes, hlength]
  · rw [hbytes]
    omega
  · rw [hbytes]

theorem writeInput_holds {memory memory' : List UInt8}
    (h : guest.writeInput call memory = .ok memory') :
    ∃ pages, call.Holds (memory ++ List.replicate (pages * wasmPageSize) 0) memory' := by
  rcases writeInput_cases guest call memory with ⟨message, hwrite⟩ | ⟨other, pages, hwrite, hholds⟩
  · rw [hwrite] at h
    cases h
  · rw [hwrite] at h
    obtain rfl := Except.ok.inj h
    exact ⟨pages, hholds⟩

theorem arguments_told {a b c d : Int32} (h : arguments call = .ok (a, b, c, d)) :
    call.Told a b c d := by
  rcases arguments_cases call with ⟨message, harguments⟩ | ⟨a', b', c', d', harguments, htold⟩
  · rw [harguments] at h
    cases h
  · rw [harguments] at h
    cases h
    exact htold

theorem readResult_from {maxResponseBytes : Nat} {memory : List UInt8} {resultPtr : Int32}
    {bytes : List UInt8} (h : readResult maxResponseBytes memory resultPtr = .ok bytes) :
    ∃ rp, ReadFrom maxResponseBytes memory resultPtr bytes rp := by
  rcases readResult_cases maxResponseBytes memory resultPtr with
    ⟨message, hread⟩ | ⟨other, rp, hread, hfrom⟩
  · rw [hread] at h
    cases h
  · rw [hread] at h
    obtain rfl := Except.ok.inj h
    exact ⟨rp, hfrom⟩

/-- The guest has run on the memory that was written, with the numbers it was told. -/
structure Ran (guest : Guest) (call : GuestCall)
    (execute : List UInt8 → Int32 → Int32 → Int32 → Int32 →
      List UInt8 × Except ConnectorError Int32)
    (memory : List UInt8) (a b c d : Int32) : Prop where
  exported : guest.execute = .ok execute
  written : ∃ before pages, guest.memory = some before ∧
    guest.writeInput call before = .ok memory ∧
    call.Holds (before ++ List.replicate (pages * wasmPageSize) 0) memory
  arguments : Guest.arguments call = .ok (a, b, c, d)
  told : call.Told a b c d

/-- What the host makes of the guest's memory and answer after the call. -/
structure Answered {ActionResult : Type} (maxResponseBytes : Nat)
    (fromUtf8 : List UInt8 → Except String String) (fromStr : String → Except String ActionResult)
    (memory : List UInt8) (resultPtr : Int32) (result : ActionResult) : Prop where
  read : ∃ bytes text rp, readResult maxResponseBytes memory resultPtr = .ok bytes ∧
    ReadFrom maxResponseBytes memory resultPtr bytes rp ∧ fromUtf8 bytes = .ok text ∧
    fromStr text = .ok result

/-- A call stops at a check, or at the guest's own error, or with what was read of the memory that
the guest left. -/
inductive CallEnd (guest : Guest) (call : GuestCall) {ActionResult : Type} (maxResponseBytes : Nat)
    (fromUtf8 : List UInt8 → Except String String)
    (fromStr : String → Except String ActionResult) : Except HostExit ActionResult → Prop
  | refused (message : String) : CallEnd guest call maxResponseBytes fromUtf8 fromStr
    (.error (.connector (.sandbox message)))
  | failed {execute memory a b c d memory' e} :
    guest.Ran call execute memory a b c d → execute memory a b c d = (memory', .error e) →
      CallEnd guest call maxResponseBytes fromUtf8 fromStr (.error (.connector e))
  | unreadable (message : String) : CallEnd guest call maxResponseBytes fromUtf8 fromStr
    (.error (.serialization message))
  | answered {execute memory a b c d memory' resultPtr result} :
    guest.Ran call execute memory a b c d → execute memory a b c d = (memory', .ok resultPtr) →
      Answered maxResponseBytes fromUtf8 fromStr memory' resultPtr result →
      CallEnd guest call maxResponseBytes fromUtf8 fromStr (.ok result)

theorem executeChecked_end {ActionResult : Type} (guest : Guest) (call : GuestCall)
    (maxResponseBytes : Nat) (fromUtf8 : List UInt8 → Except String String)
    (fromStr : String → Except String ActionResult) :
    CallEnd guest call maxResponseBytes fromUtf8 fromStr
      (guest.executeChecked call maxResponseBytes fromUtf8 fromStr) := by
  rw [executeChecked]
  cases hexecute : guest.execute with
  | error e => exact .refused _
  | ok execute =>
    cases hmemory : guest.memory with
    | none => exact .refused _
    | some memory =>
      dsimp only
      rcases writeInput_cases guest call memory with
        ⟨message, hwrite⟩ | ⟨memory', pages, hwrite, hholds⟩
      · rw [hwrite, sandbox_bind]
        exact .refused _
      rcases arguments_cases call with ⟨message, harguments⟩ | ⟨a, b, c, d, harguments, htold⟩
      · rw [hwrite, ok_bind, harguments, sandbox_bind]
        exact .refused _
      have hran : guest.Ran call execute memory' a b c d :=
        ⟨hexecute, ⟨memory, pages, hmemory, hwrite, hholds⟩, harguments, htold⟩
      rw [hwrite, ok_bind, harguments, ok_bind]
      dsimp only
      cases hcall : execute memory' a b c d with
      | mk memory'' result =>
        cases result with
        | error e => exact .failed hran hcall
        | ok resultPtr =>
          dsimp only
          rcases readResult_cases maxResponseBytes memory'' resultPtr with
            ⟨message, hread⟩ | ⟨bytes, rp, hread, hfrom⟩
          · rw [hread, sandbox_bind]
            exact .refused _
          · rw [hread, ok_bind]
            split
            · exact .refused _
            · rename_i text htext
              split
              · exact .unreadable _
              · rename_i result hresult
                exact .answered hran hcall ⟨bytes, text, rp, hread, hfrom, htext, hresult⟩

/-- What the guest would do in another memory, or with other numbers, does not matter. -/
theorem executeChecked_congr {ActionResult : Type} {execute execute' : List UInt8 → Int32 →
      Int32 → Int32 → Int32 → List UInt8 × Except ConnectorError Int32}
    (hexport : guest.execute = .ok execute)
    (hsame : ∀ memory a b c d, guest.Ran call execute memory a b c d →
      execute memory a b c d = execute' memory a b c d)
    (maxResponseBytes : Nat) (fromUtf8 : List UInt8 → Except String String)
    (fromStr : String → Except String ActionResult) :
    guest.executeChecked call maxResponseBytes fromUtf8 fromStr =
      { guest with execute := .ok execute' }.executeChecked call maxResponseBytes fromUtf8
        fromStr := by
  rw [executeChecked, executeChecked, hexport]
  cases hmemory : guest.memory with
  | none => rfl
  | some memory =>
    have hsameWrite : Guest.writeInput ⟨.ok execute', some memory, guest.grow⟩ call memory =
        guest.writeInput call memory := rfl
    simp only [hsameWrite]
    rcases writeInput_cases guest call memory with
      ⟨message, hwrite⟩ | ⟨memory', pages, hwrite, hholds⟩
    · simp only [hwrite, sandbox_bind]
    rcases arguments_cases call with ⟨message, harguments⟩ | ⟨a, b, c, d, harguments, htold⟩
    · simp only [hwrite, ok_bind, harguments, sandbox_bind]
    have hcall := hsame memory' a b c d
      ⟨hexport, ⟨memory, pages, hmemory, hwrite, hholds⟩, harguments, htold⟩
    simp only [hwrite, ok_bind, harguments, hcall]

/-- A call keeps to the guest's memory. It never stops at a fault; the guest runs on a memory that
holds both texts, is told where, and runs nowhere else; and a result is what the host has read, of
the memory that the guest left, where the guest says it is. -/
structure Contained (guest : Guest) (call : GuestCall) (maxResponseBytes : Nat) : Prop where
  noFault : ∀ (ActionResult : Type) (fromUtf8 : List UInt8 → Except String String)
    (fromStr : String → Except String ActionResult) (f : Fault),
    guest.executeChecked call maxResponseBytes fromUtf8 fromStr ≠ .error (.fault f)
  ends : ∀ (ActionResult : Type) (fromUtf8 : List UInt8 → Except String String)
    (fromStr : String → Except String ActionResult),
    CallEnd guest call maxResponseBytes fromUtf8 fromStr
      (guest.executeChecked call maxResponseBytes fromUtf8 fromStr)
  nowhereElse : ∀ (ActionResult : Type) (fromUtf8 : List UInt8 → Except String String)
    (fromStr : String → Except String ActionResult)
    (execute execute' : List UInt8 → Int32 → Int32 → Int32 → Int32 →
      List UInt8 × Except ConnectorError Int32), guest.execute = .ok execute →
    (∀ memory a b c d, guest.Ran call execute memory a b c d →
      execute memory a b c d = execute' memory a b c d) →
    guest.executeChecked call maxResponseBytes fromUtf8 fromStr =
      { guest with execute := .ok execute' }.executeChecked call maxResponseBytes fromUtf8 fromStr
  written : ∀ memory memory', guest.writeInput call memory = .ok memory' →
    ∃ pages, call.Holds (memory ++ List.replicate (pages * wasmPageSize) 0) memory'
  told : ∀ a b c d, arguments call = .ok (a, b, c, d) → call.Told a b c d
  read : ∀ memory resultPtr bytes, readResult maxResponseBytes memory resultPtr = .ok bytes →
    ∃ rp, ReadFrom maxResponseBytes memory resultPtr bytes rp

/-- The exchange stays in the guest's memory, whatever the guest returns. -/
theorem contained (guest : Guest) (call : GuestCall) (maxResponseBytes : Nat) :
    Contained guest call maxResponseBytes where
  noFault ActionResult fromUtf8 fromStr f hfault := by
    have hend := executeChecked_end guest call maxResponseBytes fromUtf8 fromStr
    rw [hfault] at hend
    cases hend
  ends _ := executeChecked_end guest call maxResponseBytes
  nowhereElse _ fromUtf8 fromStr _ _ hexport hsame :=
    executeChecked_congr hexport hsame maxResponseBytes fromUtf8 fromStr
  written _ _ := writeInput_holds
  told _ _ _ _ := arguments_told
  read _ _ _ := readResult_from

/-- A guest that answers with the two bytes of a number, behind its input. -/
def answering : Guest where
  execute := .ok fun memory _ _ c d =>
    let place := (c + d).toInt.toNat
    (memory.take place ++ [2, 0, 0, 0, 52, 50] ++ memory.drop (place + 6), .ok (c + d))
  memory := some (List.replicate 1040 0)
  grow _ := .error "memory minimum size"

def ping : GuestCall := ⟨[112, 105, 110, 103], [123, 125], by decide⟩

def asciiText (bytes : List UInt8) : Except String String :=
  .ok (String.ofList (bytes.map fun b => Char.ofNat b.toNat))

theorem contained_ping : Contained answering ping 16 ∧
    (answering.executeChecked ping 16 asciiText .ok).toOption =
      some (String.ofList ['4', '2']) :=
  ⟨contained answering ping 16, by decide +kernel⟩

end Guest

end Springtale.Connector
