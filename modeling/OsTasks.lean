import OsTasks.Library.BoundedFifo
import OsTasks.Library.Compact
import OsTasks.Library.Decimal
import OsTasks.Library.IdTurns
import OsTasks.Library.Lines
import OsTasks.Library.Pieces
import OsTasks.Library.Pipeline
import OsTasks.Library.Restart
import OsTasks.Library.ReusedIds
import OsTasks.Library.Ring
import OsTasks.Library.Stuffing
import OsTasks.File.InputLine
import OsTasks.File.LineList
import OsTasks.File.PrintLine
import OsTasks.File.ReadLine
import OsTasks.File.ScanFile
import OsTasks.File.Session
import OsTasks.Mmap.PrintLine
import OsTasks.Mmap.ScanFile
import OsTasks.Mmap.Session
import OsTasks.PortForwarding.Agreement
import OsTasks.PortForwarding.Announcing
import OsTasks.PortForwarding.Arming
import OsTasks.PortForwarding.Arrivals
import OsTasks.PortForwarding.Attempts
import OsTasks.PortForwarding.BackPressure
import OsTasks.PortForwarding.Blocking
import OsTasks.PortForwarding.Calls
import OsTasks.PortForwarding.ClientBytes
import OsTasks.PortForwarding.CommandQueue
import OsTasks.PortForwarding.Connection
import OsTasks.PortForwarding.Controller
import OsTasks.PortForwarding.Crowd
import OsTasks.PortForwarding.Departures
import OsTasks.PortForwarding.Descriptors
import OsTasks.PortForwarding.Draining
import OsTasks.PortForwarding.EncodeFrame
import OsTasks.PortForwarding.Evolution
import OsTasks.PortForwarding.Fifo
import OsTasks.PortForwarding.Flush
import OsTasks.PortForwarding.FrameBytes
import OsTasks.PortForwarding.Frames
import OsTasks.PortForwarding.FramesInFlight
import OsTasks.PortForwarding.FreeCells
import OsTasks.PortForwarding.FreeIds
import OsTasks.PortForwarding.FullQueue
import OsTasks.PortForwarding.Handshake
import OsTasks.PortForwarding.Histories
import OsTasks.PortForwarding.Incarnations
import OsTasks.PortForwarding.InputRoom
import OsTasks.PortForwarding.Intake
import OsTasks.PortForwarding.Leftovers
import OsTasks.PortForwarding.Lifecycle
import OsTasks.PortForwarding.Link
import OsTasks.PortForwarding.LinkClients
import OsTasks.PortForwarding.Manager
import OsTasks.PortForwarding.ObjectSteps
import OsTasks.PortForwarding.Openings
import OsTasks.PortForwarding.PollSlots
import OsTasks.PortForwarding.Progress
import OsTasks.PortForwarding.Pump
import OsTasks.PortForwarding.PumpTraffic
import OsTasks.PortForwarding.Receipt
import OsTasks.PortForwarding.Receive
import OsTasks.PortForwarding.Reporting
import OsTasks.PortForwarding.Restarting
import OsTasks.PortForwarding.Resume
import OsTasks.PortForwarding.RoundBuffer
import OsTasks.PortForwarding.Segments
import OsTasks.PortForwarding.Sending
import OsTasks.PortForwarding.SentFrames
import OsTasks.PortForwarding.ServedOnce
import OsTasks.PortForwarding.Sharing
import OsTasks.PortForwarding.Slots
import OsTasks.PortForwarding.SocketBytes
import OsTasks.PortForwarding.Steps
import OsTasks.PortForwarding.Traffic
import OsTasks.PortForwarding.TunnelEntry
import OsTasks.PortForwarding.TunnelFormat
import OsTasks.PortForwarding.TunnelSpared
import OsTasks.PortForwarding.TunnelStream
import OsTasks.PortForwarding.TunnelUpdate
import OsTasks.PortForwarding.Turns
import OsTasks.PortForwarding.TwoEndpoints
import OsTasks.PortForwarding.Unseen
import OsTasks.PortForwarding.UpdateTraffic
import OsTasks.PortForwarding.Updates
import OsTasks.PortForwarding.Views
import OsTasks.PortForwarding.Waiting
import OsTasks.PortForwarding.Wakeup
import OsTasks.PortForwarding.WellFormed
import OsTasks.Proxy.Flushing
import OsTasks.Proxy.Main
import OsTasks.Proxy.Polling
import OsTasks.Proxy.Program
import OsTasks.Proxy.Proxied
import OsTasks.Proxy.RoundBuffer
import OsTasks.Proxy.SlotTable
import OsTasks.Proxy.Stream
import OsTasks.Proxy.Table
import OsTasks.Proxy.Transfer
import OsTasks.UnixSocket.Server
import OsTasks.UnixSocket.WriteAll
