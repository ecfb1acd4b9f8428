import PodFirmware.Lib.Machine
import PodFirmware.Lib.BitField
import PodFirmware.Gpio
import PodFirmware.ExtiConfig
import PodFirmware.Lib.Window
import PodFirmware.Analog
import PodFirmware.Lib.Deque
import PodFirmware.SizedBuffer
import PodFirmware.Dispatch
import PodFirmware.Interval
import PodFirmware.Escape
import PodFirmware.Application
import PodFirmware.Aside
import PodFirmware.Beside
import PodFirmware.History
import PodFirmware.Guards
import PodFirmware.Entrance
import PodFirmware.Brakes
import PodFirmware.Thrusters
import PodFirmware.Phase
import PodFirmware.Precedence
import PodFirmware.Periodic
import PodFirmware.Latch
import PodFirmware.Exti
import PodFirmware.Strip
import PodFirmware.Init
import PodFirmware.Frame
import PodFirmware.Console
import PodFirmware.Occupancy
import PodFirmware.Messages
import PodFirmware.Lines
import PodFirmware.Commands
import PodFirmware.Lib.CString
import PodFirmware.CmdBadgerloop
import PodFirmware.Apart
import PodFirmware.Cli
import PodFirmware.CommandTable
import PodFirmware.Arguments
import PodFirmware.Datagram
import PodFirmware.Query
import PodFirmware.Lib.Pool
import PodFirmware.Pbuf
import PodFirmware.Ethernetif
import PodFirmware.Message
import PodFirmware.Fallback
import PodFirmware.Override
import PodFirmware.Held
import PodFirmware.Charge
import PodFirmware.Retry
import PodFirmware.Lib.Mean
import PodFirmware.Fifo
import PodFirmware.Interrupts
import PodFirmware.Distance
import PodFirmware.Lib.Rolling
import PodFirmware.Rolling
import PodFirmware.StoppingDistance
import PodFirmware.Reckoning
import PodFirmware.Lib.WriteCache
import PodFirmware.Pins
import PodFirmware.IdleCheck
import PodFirmware.Lib.Debounce
import PodFirmware.Debounce
import PodFirmware.Secondary
import PodFirmware.Recall
import PodFirmware.Lib.SharedRing
import PodFirmware.Transmit
import PodFirmware.Outgoing
import PodFirmware.Returns
import PodFirmware.Receive
import PodFirmware.Incoming
import PodFirmware.Reception
import PodFirmware.Lib.Inevitable
import PodFirmware.Wake
import PodFirmware.Finish
import PodFirmware.Lib.OnesComplement
import PodFirmware.Chksum
import PodFirmware.Udp
import PodFirmware.Intact
import PodFirmware.Sockets
import PodFirmware.Ip4
import PodFirmware.Reass
import PodFirmware.Reassembled
import PodFirmware.Ip4Frag
import PodFirmware.Ip4Input
import PodFirmware.Delivered
