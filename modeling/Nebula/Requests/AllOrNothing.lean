import Nebula.Queues.Filing

/-! A request that its sender prints is granted with a record or denied without a trace. -/

namespace Nebula

open CText

/-- The text send_resource_request prints into its buffer. -/
def requestText (name : Bytes) (ram hdd : Int) : Bytes :=
  ascii "REQ:" ++ name ++ ch ':' :: (decimal ram ++ ch ':' :: decimal hdd)

/-- A REQ message with a name that can be read back, amounts of C ints, and the sender's size. -/
structure ResourceMessage where
  name : Bytes
  ram : Int
  hdd : Int
  plain : ∀ byte ∈ name, byte ≠ 0 ∧ byte ≠ ch ':'
  ramFits : InInt ram
  hddFits : InInt hdd
  short : (requestText name ram hdd).length < 256

namespace ResourceMessage

def text (message : ResourceMessage) : Bytes := requestText message.name message.ram message.hdd

/-- What the handler makes of the message, on whatever stack it runs. -/
def request (message : ResourceMessage) (stack : Bytes) : ResourceRequest :=
  ⟨localName stack message.name, message.ram, message.hdd⟩

/-- The handler's buffer holds the whole message. -/
theorem readText_text (message : ResourceMessage) : readText message.text = message.text := by
  have short : message.text.length < 256 := message.short
  exact readText_requestOfFields (Nat.le_of_lt (Nat.lt_trans short (by decide)))
    (fun byte inName => (message.plain byte inName).1) (fun byte inRam => (decimal_plain _ byte inRam).1)
    (fun byte inHdd => (decimal_plain _ byte inHdd).1)

/-- The handler reads back the amounts that were printed. -/
theorem requestOf_text (message : ResourceMessage) (stack : Bytes) :
    requestOf stack message.text = some (message.request stack) := by
  -- Neither the name nor a printed number has a separator in it.
  refine requestOf_eq_some.mpr ⟨message.name, decimal message.ram, decimal message.hdd, message.readText_text,
    fun inName => (message.plain _ inName).2 rfl, fun inRam => (decimal_plain message.ram _ inRam).2 rfl, ?_⟩
  rw [atoi_decimal message.ramFits, atoi_decimal message.hddFits]
  rfl

end ResourceMessage

namespace Kernel

theorem grantReply_ne_denyReply (childPid : Int) : grantReply childPid ≠ denyReply := by
  intro same
  have first : some (ch 'G') = some (ch 'D') := congrArg List.head? same
  revert first
  decide

/-- A table with room has the new block in its first free cell. -/
theorem createRequested_pcb {k : Kernel} (room : k.pcbs.count < maxProcesses) (resources : Resources)
    (childPid : Int) (request : ResourceRequest) :
    (({ k with resources := resources } : Kernel).createRequested childPid request).pcb (k.pcbs.nextSlot room) =
      newProcess childPid request.name (defaultPriority (getQueueLevel request.name))
        (getQueueLevel request.name) request.ram request.hdd := by
  rw [pcb, createRequested, createPcb_pcbs (k := { k with resources := resources }) room,
    SlotArray.get_append_self]

/-- The text "REQ:Alarm:10:5". -/
def alarmRequest : ResourceMessage where
  name := ascii "Alarm"
  ram := 10
  hdd := 5
  plain := by
    have checked : (ascii "Alarm").all (fun byte => byte != 0 && byte != ch ':') = true := by decide
    intro byte member
    have apart := List.all_eq_true.mp checked byte member
    rwa [Bool.and_eq_true, bne_iff_ne, bne_iff_ne] at apart
  ramFits := by decide
  hddFits := by decide
  short := by decide

end Kernel

end Nebula
