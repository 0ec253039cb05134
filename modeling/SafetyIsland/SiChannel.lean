namespace SafetyIsland

inductive SiMsg
  | ignore
  | hello
  | faultSet
  | faultClear
deriving DecidableEq

-- The fault level, its rising edges and the received datagrams of the rpmsg-si endpoint. The two
-- counters are `unsigned` and wrap.
structure SiChannel where
  fault       : Bool
  faultEvents : UInt32
  rxCount     : UInt32
deriving DecidableEq

namespace SiChannel

def init : SiChannel where
  fault       := false
  faultEvents := 0
  rxCount     := 0

def bytes (lit : String) : List UInt8 :=
  lit.toList.map fun c => .ofNat c.toNat

-- The datagram is the text, with or without one trailing newline.
def eq (data : List UInt8) (lit : String) : Bool :=
  data = bytes lit || data = bytes lit ++ [10]

def parse (data : List UInt8) : SiMsg :=
  if data = [] then .ignore
  else if eq data "hello" then .hello
  else if eq data "fault=1" then .faultSet
  else if eq data "fault=0" then .faultClear
  else .ignore

def rx (c : SiChannel) (data : List UInt8) : SiChannel :=
  let c := { c with rxCount := c.rxCount + 1 }
  match parse data with
  | .faultSet   => { c with
      fault       := true
      faultEvents := if c.fault then c.faultEvents else c.faultEvents + 1 }
  | .faultClear => { c with fault := false }
  | _           => c

def rises (c : SiChannel) (data : List UInt8) : Bool :=
  !c.fault && parse data = .faultSet

theorem rx_faultEvents (c : SiChannel) (data : List UInt8) :
    (c.rx data).faultEvents = if c.rises data then c.faultEvents + 1 else c.faultEvents := by
  unfold rx rises
  split <;> cases hf : c.fault <;> simp_all

example : parse (bytes "fault=1\n") = .faultSet := by decide

end SiChannel
end SafetyIsland
