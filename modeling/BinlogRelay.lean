import BinlogRelay.Binlog.Event
import BinlogRelay.Syncer.LocationRecorder
import BinlogRelay.Syncer.Reset
import BinlogRelay.Syncer.Transactions
import BinlogRelay.Streamer.Filename
import BinlogRelay.Streamer.ExtractPos
import BinlogRelay.Streamer.RelayDir
import BinlogRelay.Streamer.Reader
import BinlogRelay.Streamer.System
import BinlogRelay.Streamer.Progress
import BinlogRelay.Streamer.Layout
import BinlogRelay.Streamer.Decode
import BinlogRelay.Streamer.Ideal
import BinlogRelay.Streamer.Delivery
import BinlogRelay.Streamer.Drain
import BinlogRelay.Streamer.CatchUp
import BinlogRelay.Streamer.Resume
