import Mathlib.Order.WithBot
import Mathlib.Data.Prod.Lex
import Groupnet.Id
import Groupnet.Config
import Groupnet.Lib.Codec
import Groupnet.Lib.Ordered

/-!
# Fragments of a link

A frame longer than a link carries is sent as fragments.  Each has a header with the frame's
fragment id, the fragment's index, how many there are and the length of the frame, in network
byte order.  `Reassembly` collects the fragments it receives per link, session, sender and
id, in any order, and returns a frame with its last missing fragment.

A router with a cluster secret seals its frames and tags each fragment, which leaves less
room in a fragment.  The tag is checked and taken off before a fragment is handed over, so
that a fragment here is its header and its part of the frame.

The clock is read once per packet.
-/

namespace Groupnet.Network

open Codec

/-! ## Sealing -/

/-- The magic of a frame without a seal. -/
def openMagic : List UInt8 := [71, 78, 82, 49]

def sealedMagic : List UInt8 := [71, 78, 83, 49]

/-- The magic of a fragment without a tag. -/
def openFragment : List UInt8 := [71, 78, 70, 49]

/-- The magic of a tagged fragment. -/
def sealedFragment : List UInt8 := [71, 78, 84, 49]

def tagLen : Nat := 32

/-- How a router frames its fragments. -/
structure FragmentFormat where
  magic : List UInt8
  /-- The bytes a tag adds to a fragment. -/
  tag : Nat

/-- A router's sealing: with a cluster secret or without one. -/
structure Sealing where
  secret : Bool

namespace Sealing

def magic (s : Sealing) : List UInt8 := if s.secret then sealedMagic else openMagic

/-- The bytes a seal adds to a frame. -/
def overhead (s : Sealing) : Nat := if s.secret then tagLen else 0

def fragments (s : Sealing) : FragmentFormat :=
  if s.secret then ⟨sealedFragment, tagLen⟩ else ⟨openFragment, 0⟩

end Sealing

/-! ## Headers -/

structure FragmentHeader where
  magic : List UInt8
  id : List UInt8
  index : Nat
  count : Nat
  total : Nat

def fragmentLen : Nat := 28

namespace FragmentHeader

def asBytes (h : FragmentHeader) : List UInt8 :=
  h.magic ++ (h.id ++ (putBE 2 h.index ++ (putBE 2 h.count ++ putBE 4 h.total)))

def refFromFront (bytes : List UInt8) : Option (FragmentHeader × List UInt8) :=
  if bytes.length < fragmentLen then none
  else some
    ({ magic := bytes.take 4
       id := (bytes.drop 4).take 16
       index := fromBE ((bytes.drop 20).take 2)
       count := fromBE ((bytes.drop 22).take 2)
       total := fromBE ((bytes.drop 24).take 4) },
      bytes.drop fragmentLen)

end FragmentHeader

/-! ## Fragmentation -/

/-- How many parts of `chunk` bytes some bytes make. -/
def countOf (chunk len : Nat) : Nat := (len + chunk - 1) / chunk

def partAt (bytes : List UInt8) (chunk index : Nat) : List UInt8 :=
  (bytes.drop (index * chunk)).take chunk

def fragment (bytes : List UInt8) (mtu : Nat) (id : List UInt8) (format : FragmentFormat) :
    List (List UInt8) :=
  let chunk := mtu - fragmentLen - format.tag
  let count := countOf chunk bytes.length
  (List.range count).map fun index =>
    FragmentHeader.asBytes ⟨format.magic, id, index, count, bytes.length⟩ ++
      partAt bytes chunk index

/-! ## Reassembly -/

/-- Where a fragment came from, and its id as a number. -/
structure AssemblyKey where
  link : Nat
  session : Option Nat
  sender : NodeId
  id : Nat
deriving DecidableEq

theorem AssemblyKey.tuple_injective : Function.Injective fun k : AssemblyKey =>
    (toLex (k.link, toLex ((k.session : WithBot Nat), toLex (k.sender, k.id))) :
      Nat ×ₗ (WithBot Nat ×ₗ (NodeId ×ₗ Nat))) := by
  rintro ⟨_, _, _, _⟩ ⟨_, _, _, _⟩ h
  cases h
  rfl

instance : LinearOrder AssemblyKey := LinearOrder.lift' _ AssemblyKey.tuple_injective

/-- A frame of which not all fragments are here. -/
structure Assembly where
  created : Time
  total : Nat
  retained : Nat
  parts : List (Option (List UInt8))
  missing : Nat

namespace Assembly

/-- Whether a fragment is not here yet. -/
def lacks (entry : Assembly) (index : Nat) : Bool := (entry.parts[index]?.join).isNone

/-- The assembly with a fragment, unless it was here before. -/
def add (entry : Assembly) (index : Nat) (body : List UInt8) : Assembly :=
  if entry.lacks index then
    { entry with
      retained := entry.retained + body.length
      parts := entry.parts.set index (some body)
      missing := entry.missing - 1 }
  else entry

end Assembly

/-- The bounds of reassembly.  A count of fragments fits 16 bits. -/
structure ReassemblyConfig where
  maxPending : NonZero
  maxFragments : NonZero
  timeout : Nat
  fits : maxFragments.val < 65536

/-- The fragments received so far. -/
structure Reassembly where
  pending : Std.TreeMap AssemblyKey Assembly
  config : ReassemblyConfig
  maxFrame : Nat
  magic : List UInt8
  fragmentMagic : List UInt8

structure Packet where
  now : Time
  link : Nat
  session : Option Nat
  sender : NodeId
  bytes : List UInt8

namespace Reassembly

def new (config : ReassemblyConfig) (maxFrame : Nat) (magic fragmentMagic : List UInt8) :
    Reassembly :=
  ⟨∅, config, maxFrame, magic, fragmentMagic⟩

variable (r : Reassembly)

/-- Drops the assemblies that are too old. -/
def retain (now : Time) : Reassembly :=
  { r with pending := r.pending.filter fun _ entry => now - entry.created < r.config.timeout }

def put (key : AssemblyKey) (entry : Assembly) : Reassembly :=
  { r with pending := r.pending.insert key entry }

def remove (key : AssemblyKey) : Reassembly :=
  { r with pending := r.pending.erase key }

/-- Whether a header is one of a frame that could be collected. -/
def acceptable (h : FragmentHeader) : Bool :=
  !(decide (h.count = 0) || decide (r.config.maxFragments.val < h.count) ||
    decide (h.count ≤ h.index) || decide (r.maxFrame < h.total) || decide (h.total < h.count))

/-- The assembly of a frame of which nothing has been received. -/
def begun (now : Time) (h : FragmentHeader) : Assembly :=
  ⟨now, h.total, 0, List.replicate h.count none, h.count⟩

/-- Adds a fragment to its assembly, which is dropped when the frame has all its fragments or
they are too long. -/
def accept (key : AssemblyKey) (entry : Assembly) (h : FragmentHeader) (body : List UInt8) :
    Reassembly × Option (List UInt8) :=
  if entry.total ≠ h.total ∨ entry.parts.length ≠ h.count then (r.remove key, none)
  else
    let next := entry.add h.index body
    if entry.lacks h.index ∧ h.total < next.retained then (r.remove key, none)
    else if next.missing ≠ 0 then (r.put key next, none)
    else if next.retained ≠ h.total then (r.remove key, none)
    else (r.remove key, some (next.parts.flatMap fun part => part.getD []))

/-- Takes a packet, and the frame it completes. -/
def receive (p : Packet) : Reassembly × Option (List UInt8) :=
  let r := r.retain p.now
  if p.bytes.take 4 = r.magic then (r, if p.bytes.length ≤ r.maxFrame then some p.bytes else none)
  else match FragmentHeader.refFromFront p.bytes with
    | none => (r, none)
    | some (h, body) =>
      if h.magic ≠ r.fragmentMagic ∨ body = [] then (r, none)
      else if !r.acceptable h then (r, none)
      else
        let key : AssemblyKey := ⟨p.link, p.session, p.sender, fromBE h.id⟩
        match r.pending[key]? with
        | some entry => r.accept key entry h body
        | none =>
          if r.config.maxPending.val ≤ r.pending.size then (r, none)
          else r.accept key (begun p.now h) h body

/-- The frames that some packets complete, one after the other. -/
def receiveAll (r : Reassembly) : List Packet → List (Option (List UInt8))
  | [] => []
  | p :: ps => (r.receive p).2 :: (r.receive p).1.receiveAll ps

end Reassembly

/-! ## Routers -/

/-- What a router's fragmentation is configured with.  The length of a sealed frame fits the
32 bits of a header. -/
structure RouterConfig where
  maxFrame : NonZero
  sealing : Sealing
  reassembly : ReassemblyConfig
  sized : maxFrame.val + sealing.overhead < 4294967296

namespace RouterConfig

def fragments (config : RouterConfig) : Reassembly :=
  .new config.reassembly (config.maxFrame.val + config.sealing.overhead) config.sealing.magic
    config.sealing.fragments.magic

def admitsMtu (config : RouterConfig) (mtu : Nat) : Bool :=
  decide (fragmentLen + config.sealing.overhead + 1 ≤ mtu) && decide (mtu ≤ config.maxFrame.val) &&
    decide (countOf (mtu - fragmentLen - config.sealing.overhead)
      (config.maxFrame.val + config.sealing.overhead) ≤ config.reassembly.maxFragments.val)

end RouterConfig

end Groupnet.Network
