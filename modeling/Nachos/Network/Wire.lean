import Nachos.Filesys.Transfer

/-!
# Packets and mail

The format of what goes over the network (`network.h`, `post.h`): a packet is `MaxWireSize` bytes,
a `PacketHeader`, a `MailHeader` and the bytes of the message, one after the other. What is read off
a packet is what was put into it, whatever the memory held that it was put together in.
-/

namespace Nachos.Network

open Lib Mips Threads
open Filesys (Memory bytesOf wordsOf wordsOf_congr wordsOf_copyAt)

/-- `NetworkAddress`. -/
abbrev NetworkAddress := Word

/-- `MailBoxAddress`. -/
abbrev MailBoxAddress := Word

/-- `class PacketHeader`. -/
structure PacketHeader where
  to_ : NetworkAddress
  from_ : NetworkAddress
  length : Word
  deriving DecidableEq

/-- `class MailHeader`. -/
structure MailHeader where
  to_ : MailBoxAddress
  from_ : MailBoxAddress
  length : Word
  deriving DecidableEq

/-- `sizeof(PacketHeader)`. -/
abbrev packetHeaderSize : ℕ := 12

/-- `sizeof(MailHeader)`. -/
abbrev mailHeaderSize : ℕ := 12

/-- `MaxWireSize`. -/
abbrev maxWireSize : ℕ := 64

/-- `MaxPacketSize`. -/
abbrev maxPacketSize : ℕ := maxWireSize - packetHeaderSize

/-- `MaxMailSize`. -/
abbrev maxMailSize : ℕ := maxPacketSize - mailHeaderSize

/-- The memory behind a pointer, from `k` bytes on. -/
def behind (m : Memory) (k : ℕ) : Memory := fun i => m (k + i)

/-! ### Headers in memory -/

namespace PacketHeader

/-- The object as an array of words. -/
def word (hdr : PacketHeader) : ℕ → Word
  | 0 => hdr.to_
  | 1 => hdr.from_
  | _ => hdr.length

def ofMemory (m : Memory) : PacketHeader := ⟨wordsOf m 0, wordsOf m 1, wordsOf m 2⟩

lemma ofMemory_congr {m m' : Memory} (h : ∀ i < packetHeaderSize, m i = m' i) :
    ofMemory m = ofMemory m' := by
  have hword : ∀ i < 3, wordsOf m i = wordsOf m' i := fun i hi =>
    wordsOf_congr fun j hj => h _ (by unfold packetHeaderSize; omega)
  simp only [ofMemory, hword 0 (by decide), hword 1 (by decide), hword 2 (by decide)]

/-- A header that was stored is read back. -/
lemma ofMemory_copyAt (hdr : PacketHeader) (m : Memory) :
    ofMemory (copyAt m 0 packetHeaderSize (bytesOf hdr.word)) = hdr := by
  have hword : ∀ i < 3, wordsOf (copyAt m 0 packetHeaderSize (bytesOf hdr.word)) i = hdr.word i :=
    fun i hi => wordsOf_copyAt (by unfold packetHeaderSize; omega)
  simp only [ofMemory, hword 0 (by decide), hword 1 (by decide), hword 2 (by decide), word]

end PacketHeader

namespace MailHeader

/-- The object as an array of words. -/
def word (hdr : MailHeader) : ℕ → Word
  | 0 => hdr.to_
  | 1 => hdr.from_
  | _ => hdr.length

def ofMemory (m : Memory) : MailHeader := ⟨wordsOf m 0, wordsOf m 1, wordsOf m 2⟩

lemma ofMemory_congr {m m' : Memory} (h : ∀ i < mailHeaderSize, m i = m' i) :
    ofMemory m = ofMemory m' := by
  have hword : ∀ i < 3, wordsOf m i = wordsOf m' i := fun i hi =>
    wordsOf_congr fun j hj => h _ (by unfold mailHeaderSize; omega)
  simp only [ofMemory, hword 0 (by decide), hword 1 (by decide), hword 2 (by decide)]

/-- A header that was stored is read back. -/
lemma ofMemory_copyAt (hdr : MailHeader) (m : Memory) :
    ofMemory (copyAt m 0 mailHeaderSize (bytesOf hdr.word)) = hdr := by
  have hword : ∀ i < 3, wordsOf (copyAt m 0 mailHeaderSize (bytesOf hdr.word)) i = hdr.word i :=
    fun i hi => wordsOf_copyAt (by unfold mailHeaderSize; omega)
  simp only [ofMemory, hword 0 (by decide), hword 1 (by decide), hword 2 (by decide), word]

end MailHeader

/-! ### Mail -/

/-- `class Mail`, with the bytes of `data` that are filled. -/
structure Mail where
  pktHdr : PacketHeader
  mailHdr : MailHeader
  data : List Byte
  deriving DecidableEq

/-- `Mail::Mail`. -/
def Mail.new (pktH : PacketHeader) (mailH : MailHeader) (msgData : Memory) : Except Fault Mail :=
  if mailH.length.toNat ≤ maxMailSize then .ok ⟨pktH, mailH, slice msgData 0 mailH.length.toNat⟩
  else .error .assertion

/-- The mail header and the data, one after the other, in the buffer of `PostOffice::Send`; `fresh`
is what `new char` gives. -/
def mailBuffer (fresh : Memory) (mailHdr : MailHeader) (data : Memory) : Memory :=
  copyAt (copyAt fresh 0 mailHeaderSize (bytesOf mailHdr.word)) mailHeaderSize
    mailHdr.length.toNat data

/-- The packet header and the data, one after the other, in the buffer of `Network::Send`. -/
def wireBuffer (fresh : Memory) (hdr : PacketHeader) (data : Memory) : Memory :=
  copyAt (copyAt fresh 0 packetHeaderSize (bytesOf hdr.word)) packetHeaderSize hdr.length.toNat data

/-- The mail that lies in the data of a packet with this header. -/
def Mail.inData (hdr : PacketHeader) (m : Memory) : Mail :=
  ⟨hdr, MailHeader.ofMemory m, slice (behind m mailHeaderSize) 0 (MailHeader.ofMemory m).length.toNat⟩

/-- The mail that lies in a packet. -/
def Mail.ofPacket (packet : Memory) : Mail :=
  .inData (.ofMemory packet) (behind packet packetHeaderSize)

/-- Mail that a post office with `numBoxes` boxes accepts. -/
structure Mail.Legal (numBoxes : ℕ) (mail : Mail) : Prop where
  length_le : mail.mailHdr.length.toNat ≤ maxMailSize
  packet : mail.pktHdr.length.toNat = mail.mailHdr.length.toNat + mailHeaderSize
  box_nonneg : 0 ≤ mail.mailHdr.to_.toInt
  box_lt : mail.mailHdr.to_.toInt < numBoxes

/-- The number of its box. -/
def Mail.box (mail : Mail) : ℕ := mail.mailHdr.to_.toInt.toNat

section Formats

variable {numBoxes : ℕ} {hdr : PacketHeader} {mailHdr : MailHeader} {m m' fresh fresh' data : Memory}

lemma Mail.Legal.box_toNat_lt {mail : Mail} (h : mail.Legal numBoxes) : mail.box < numBoxes := by
  have := h.box_nonneg
  have := h.box_lt
  unfold Mail.box
  omega

lemma Mail.new_eq_ok {msgData : Memory} {mail : Mail} (h : Mail.new hdr mailHdr msgData = .ok mail) :
    mail = ⟨hdr, mailHdr, slice msgData 0 mailHdr.length.toNat⟩ := by
  unfold Mail.new at h
  split at h
  · cases h
    rfl
  · cases h

/-- The mail in the data of a packet is in the bytes that the length of the packet counts. -/
lemma Mail.inData_congr (hlen : hdr.length.toNat =
      (Mail.inData hdr m).mailHdr.length.toNat + mailHeaderSize)
    (h : ∀ i < hdr.length.toNat, m' i = m i) : Mail.inData hdr m' = Mail.inData hdr m := by
  have hheader : MailHeader.ofMemory m' = MailHeader.ofMemory m :=
    MailHeader.ofMemory_congr fun i hi => h i (by omega)
  unfold Mail.inData at hlen ⊢
  rw [hheader]
  refine congrArg (Mail.mk hdr _) (slice_congr fun i hi => h _ ?_)
  simp only at hlen
  omega

/-- What `PostOffice::Send` puts together is read back. -/
lemma Mail.inData_mailBuffer : Mail.inData hdr (mailBuffer fresh mailHdr data) =
    ⟨hdr, mailHdr, slice data 0 mailHdr.length.toNat⟩ := by
  have hheader : MailHeader.ofMemory (mailBuffer fresh mailHdr data) = mailHdr := by
    refine Eq.trans ?_ (MailHeader.ofMemory_copyAt mailHdr fresh)
    exact MailHeader.ofMemory_congr fun i hi => copyAt_of_lt hi
  unfold Mail.inData
  rw [hheader]
  refine congrArg (Mail.mk hdr mailHdr) (slice_congr fun i hi => ?_)
  rw [behind, mailBuffer, copyAt_of_mem (by omega) (by omega)]
  exact congrArg data (by omega)

/-- **A packet carries the mail that was put into it**: what is read off the bytes on the wire are
the headers and the message that were given to `PostOffice::Send`. -/
theorem Mail.ofPacket_wireBuffer
    (hlen : hdr.length.toNat = mailHdr.length.toNat + mailHeaderSize) :
    Mail.ofPacket (wireBuffer fresh hdr (mailBuffer fresh' mailHdr data)) =
      ⟨hdr, mailHdr, slice data 0 mailHdr.length.toNat⟩ := by
  have hheader : PacketHeader.ofMemory (wireBuffer fresh hdr (mailBuffer fresh' mailHdr data)) =
      hdr := by
    refine Eq.trans ?_ (PacketHeader.ofMemory_copyAt hdr fresh)
    exact PacketHeader.ofMemory_congr fun i hi => copyAt_of_lt hi
  have hmail : Mail.inData hdr (mailBuffer fresh' mailHdr data) =
      ⟨hdr, mailHdr, slice data 0 mailHdr.length.toNat⟩ := Mail.inData_mailBuffer
  rw [Mail.ofPacket, hheader, ← hmail]
  refine Mail.inData_congr ?_ fun i hi => ?_
  · rw [hmail]
    exact hlen
  · rw [behind, wireBuffer, copyAt_of_mem (by omega) (by omega)]
    exact congrArg _ (by omega)

theorem Mail.ofPacket_wireBuffer_oneByte :
    Mail.ofPacket (wireBuffer (fun _ => 9) ⟨1, 0, 13⟩ (mailBuffer (fun _ => 7) ⟨0, 1, 1⟩
      fun _ => 65)) = ⟨⟨1, 0, 13⟩, ⟨0, 1, 1⟩, [65]⟩ :=
  Mail.ofPacket_wireBuffer (by decide)

end Formats

end Nachos.Network
