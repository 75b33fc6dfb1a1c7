import HomeAssistant.Foundations.CString
import HomeAssistant.Foundations.Effects
import HomeAssistant.Foundations.PercentEncoding
import HomeAssistant.Foundations.FormData
import HomeAssistant.Foundations.Machine
import HomeAssistant.Foundations.Ranking
import HomeAssistant.Foundations.Observation
import HomeAssistant.Foundations.History
import HomeAssistant.Foundations.PrefixCode
import HomeAssistant.Foundations.Bounded
import HomeAssistant.Foundations.BitPacking
import HomeAssistant.Framework
import HomeAssistant.Provisioning.UrlDecode
import HomeAssistant.Provisioning.DecodeAccess
import HomeAssistant.Provisioning.Credentials
import HomeAssistant.Provisioning.PostHandler
import HomeAssistant.Provisioning.QueryScan
import HomeAssistant.Provisioning.Station
import HomeAssistant.Provisioning.Retrieval
import HomeAssistant.Provisioning.Fidelity
import HomeAssistant.Provisioning.Submission
import HomeAssistant.Provisioning.HandlerSteps
import HomeAssistant.Provisioning.StoredFit
import HomeAssistant.Provisioning.Boot
import HomeAssistant.Provisioning.Handover
import HomeAssistant.Provisioning.Setup
import HomeAssistant.Provisioning.WifiEvents
import HomeAssistant.Provisioning.Link
import HomeAssistant.Provisioning.Connection
import HomeAssistant.Provisioning.Durability
import HomeAssistant.Board
import HomeAssistant.Sensor.Dht11
import HomeAssistant.Sensor.PulseTimer
import HomeAssistant.Sensor.Frame
import HomeAssistant.Sensor.Checksum
import HomeAssistant.Sensor.Pulses
import HomeAssistant.Sensor.Polling
import HomeAssistant.Mqtt.Handler
import HomeAssistant.Mqtt.Task
import HomeAssistant.Audio.ChunkLoop
import HomeAssistant.Audio.StreamTasks
import HomeAssistant.Audio.Counting
import HomeAssistant.Audio.Session
import HomeAssistant.Audio.Server
import HomeAssistant.Audio.ServerTask
import HomeAssistant.Home.System
import HomeAssistant.Home.Microphone
import HomeAssistant.Home.WakeRequests
import HomeAssistant.Home.Wake
import HomeAssistant.Home.Reception
import HomeAssistant.Home.Clients
import HomeAssistant.Home.UdpClient
import HomeAssistant.Home.Descriptors
import HomeAssistant.Home.Custody
import HomeAssistant.Home.Indicator
import HomeAssistant.Home.Budget
import HomeAssistant.Home.Speaker
import HomeAssistant.Home.Outputs
import HomeAssistant.Home.Controllers
import HomeAssistant.Home.Atomicity
import HomeAssistant.Provisioning.Failures
import HomeAssistant.Provisioning.Life
