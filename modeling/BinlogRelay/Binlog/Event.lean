import Mathlib.Data.List.Basic

namespace dm.binlog

/-- A GTID set. The location recorder copies GTID sets from commit events into
    locations and never looks inside them, so the set is kept by its text. -/
structure GTIDSet where
  text : String
  deriving DecidableEq, Repr

/-- The body of a decoded binlog event, one constructor per event type that the
    location recorder or the relay reader branches on. `other` is every other
    type (GTID, table map, rows, ...), which both treat alike. -/
inductive EventBody
  | formatDescription
  | heartbeat
  | ignorable
  | previousGTIDs
  | mariadbGTIDList
  | rotate (nextLogName : String) (position : Nat)
  | xid (gset : GTIDSet)
  | query (query : String) (gset : GTIDSet)
  | mariadbGTID (isDDL : Bool)
  | other
  deriving DecidableEq, Repr

/-- The fixed binlog event header, with the code's field widths. -/
structure EventHeader where
  timestamp : UInt32
  serverID : UInt32
  eventSize : UInt32
  logPos : UInt32
  flags : UInt16
  deriving DecidableEq, Repr

structure BinlogEvent where
  header : EventHeader
  body : EventBody
  deriving DecidableEq, Repr

/-- `replication.EventHeaderSize`. -/
def EventHeaderSize : Nat := 19

/-- `binlog.FileHeaderLen`: the magic header that starts every binlog file. -/
def FileHeaderLen : UInt32 := 4

@[simp] theorem FileHeaderLen_toNat : FileHeaderLen.toNat = 4 := rfl

/-- `replication.LOG_EVENT_ARTIFICIAL_F`. -/
def LOG_EVENT_ARTIFICIAL_F : UInt16 := 0x20

/-- `LOG_EVENT_RELAY_LOG_F`, set on the events a relay writer adds to fill a gap. -/
def LOG_EVENT_RELAY_LOG_F : UInt16 := 0x40

/-- `mysql.Position`: a binlog file name and a 32-bit offset in it. -/
structure Position where
  name : String
  pos : UInt32
  deriving DecidableEq, Repr

/-- `binlog.Location`, with the fields the recorder reads and writes. -/
structure Location where
  position : Position
  gtidSet : GTIDSet
  deriving DecidableEq, Repr

namespace BinlogEvent

/-- The header's event type is `FORMAT_DESCRIPTION_EVENT`. -/
def isFormatDescription (e : BinlogEvent) : Bool :=
  e.body matches .formatDescription

/-- The header's event type is `ROTATE_EVENT`. -/
def isRotate (e : BinlogEvent) : Bool :=
  e.body matches .rotate ..

/-- The event carries `LOG_EVENT_RELAY_LOG_F`. -/
def fromRelayWriter (e : BinlogEvent) : Bool :=
  e.header.flags &&& LOG_EVENT_RELAY_LOG_F != 0

end BinlogEvent

end dm.binlog
