import GrainWarehouse.Machinery.Loop
import GrainWarehouse.Machinery.Search
import GrainWarehouse.Machinery.Circular
import GrainWarehouse.Machinery.Numeral
import GrainWarehouse.Machinery.Json
import GrainWarehouse.Machinery.JsonText
import GrainWarehouse.Machinery.Runs
import GrainWarehouse.Machinery.Clock
import GrainWarehouse.Machinery.Fifo
import GrainWarehouse.Machinery.Latest
import GrainWarehouse.Machinery.Reads
import GrainWarehouse.Machinery.Recent
import GrainWarehouse.Machinery.Interrupt
import GrainWarehouse.Machinery.Cells
import GrainWarehouse.Esp8266.Ring
import GrainWarehouse.Esp8266.Shared
import GrainWarehouse.Esp8266.Device
import GrainWarehouse.Esp8266.Frames
import GrainWarehouse.Esp8266.Buffers
import GrainWarehouse.Esp8266.Header
import GrainWarehouse.Esp8266.Stream
import GrainWarehouse.Esp8266.Delivery
import GrainWarehouse.Esp8266.Chunks
import GrainWarehouse.Esp8266.Answers
import GrainWarehouse.Esp8266.Match
import GrainWarehouse.Esp8266.Room
import GrainWarehouse.Esp8266.Reports
import GrainWarehouse.Esp8266.Commands
import GrainWarehouse.Esp8266.Confirm
import GrainWarehouse.Mqtt.Codec
import GrainWarehouse.Mqtt.Length
import GrainWarehouse.Mqtt.Receive
import GrainWarehouse.Mqtt.Bounds
import GrainWarehouse.Mqtt.Segments
import GrainWarehouse.Mqtt.Publish
import GrainWarehouse.Mqtt.Interleave
import GrainWarehouse.Mqtt.Client
import GrainWarehouse.Mqtt.Connect
import GrainWarehouse.Mqtt.Exits
import GrainWarehouse.Mqtt.Session
import GrainWarehouse.Mqtt.Task
import GrainWarehouse.Mqtt.Rounds
import GrainWarehouse.Report.Averages
import GrainWarehouse.Report.Period
import GrainWarehouse.Report.History
import GrainWarehouse.Report.Uplinks
import GrainWarehouse.Report.Encoding
import GrainWarehouse.Report.Minutes
import GrainWarehouse.Report.Screen
import GrainWarehouse.Actuator.Apply
import GrainWarehouse.Actuator.Channels
import GrainWarehouse.Actuator.Linkage
import GrainWarehouse.Actuator.Status
import GrainWarehouse.Actuator.Sensor
import GrainWarehouse.Actuator.Gui
import GrainWarehouse.Actuator.Downlink
import GrainWarehouse.Mqtt.Message
import GrainWarehouse.Mqtt.Value
import GrainWarehouse.Mqtt.Cut
import GrainWarehouse.Mqtt.Object
import GrainWarehouse.Actuator.System
import GrainWarehouse.Actuator.Manual
import GrainWarehouse.Actuator.Alarm
import GrainWarehouse.Actuator.Decision
import GrainWarehouse.Actuator.Cycle
import GrainWarehouse.Actuator.Hold
import GrainWarehouse.Actuator.Episodes
import GrainWarehouse.Monitor.Cpu
import GrainWarehouse.Monitor.Tables
import GrainWarehouse.Lora.Uart
import GrainWarehouse.Lora.Bursts
import GrainWarehouse.Mqtt.Builders
import GrainWarehouse.Mqtt.KeepAlive
import GrainWarehouse.Machinery.Slots
import GrainWarehouse.Machinery.Replay
import GrainWarehouse.Machinery.Listener
import GrainWarehouse.Machinery.Polling
import GrainWarehouse.Machinery.TwoWire
import GrainWarehouse.FreeRtos.Queue
import GrainWarehouse.FreeRtos.Blocking
import GrainWarehouse.Esp8266.Setup
import GrainWarehouse.Esp8266.Wire
import GrainWarehouse.Mqtt.Packets
import GrainWarehouse.Mqtt.Order
import GrainWarehouse.Sensor.Dht11
import GrainWarehouse.Sensor.Mq135
import GrainWarehouse.Sensor.Sgp30
import GrainWarehouse.FreeRtos.Heap
import GrainWarehouse.FreeRtos.Malloc
import GrainWarehouse.Machinery.Tiling
import GrainWarehouse.Machinery.Chain
import GrainWarehouse.FreeRtos.Loans
import GrainWarehouse.Monitor.Pages
