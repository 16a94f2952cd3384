import Vega.Lib.Prog
import Vega.Lib.Interference
import Vega.Lib.Executions
import Vega.Lib.Ring
import Vega.Lib.BoundedQueue
import Vega.Lib.Refinement
import Vega.Lib.Runs
import Vega.Lib.Divider
import Vega.Lib.Configured
import Vega.Base
import Vega.Fifo.Model
import Vega.Fifo.Contents
import Vega.Fifo.Queue
import Vega.Fifo.Preemption
import Vega.Uart.Driver
import Vega.Uart.Port
import Vega.Uart.Init
import Vega.Uart.Sending
import Vega.Uart.Put
import Vega.Uart.Interrupted
import Vega.Uart.Transmit
import Vega.Uart.Receiving
import Vega.Uart.Flow
import Vega.Uart.Get
import Vega.Uart.Setup
import Vega.Uart.Receive
import Vega.Uart.Reinit
import Vega.Uart.Steps
import Vega.Uart.Calls
import Vega.Uart.PutResult
import Vega.Uart.Lifecycle
import Vega.Uart.GetResult
import Vega.Uart.HardwareSerial
import Vega.Uart.Buffers
import Vega.Uart.DoubleBuffer
import Vega.Usb.Driver
import Vega.Usb.Cdc
import Vega.Usb.Wf
import Vega.Usb.Receiver
import Vega.Usb.CdcReceive
import Vega.Usb.Sender
import Vega.Usb.CdcTransmit
import Vega.Usb.Echo
import Vega.Usb.WriteWait
import Vega.Lib.Emits
import Vega.Usb.Print
import Vega.Usb.USBSerial
import Vega.Usb.Link
import Vega.Usb.Connection
import Vega.Rtc.Model
import Vega.Rtc.Time
import Vega.Rtc.Callbacks
import Vega.Rtc.Clock
import Vega.Rtc.Setting
import Vega.Rtc.Reading
import Vega.Serial.Model
import Vega.Serial.Mirror
import Vega.Serial.SpiDriver
import Vega.Serial.SlaveSelect
import Vega.Serial.SpiTransfer
import Vega.Delay.Model
import Vega.Delay.Micros
import Vega.Delay.Wait
import Vega.Lib.Matching
import Vega.Lib.Fuel
import Vega.Stream.Model
import Vega.Stream.Timed
import Vega.Stream.Search
import Vega.Stream.Queued
import Vega.Stream.Numbers
import Vega.Lib.Occurs
import Vega.Lib.Simulation
import Vega.WString.Model
import Vega.WString.Text
import Vega.WString.Replace
import Vega.WString.Convert
import Vega.WString.Reading
import Vega.WString.Runs
import Vega.Stream.Bytes
import Vega.Lib.Nesting
import Vega.Atfifo.Model
import Vega.Atfifo.Invariant
import Vega.Atfifo.Queue
import Vega.Atfifo.EventQueue
