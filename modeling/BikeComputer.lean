import BikeComputer.Core.Run
import BikeComputer.Core.Trace
import BikeComputer.Core.Since
import BikeComputer.Core.Interleaving
import BikeComputer.Core.Mutex
import BikeComputer.Core.Drain
import BikeComputer.Core.Mirror
import BikeComputer.Core.Counter
import BikeComputer.Core.Truncation
import BikeComputer.Core.TickSum
import BikeComputer.Core.BusyWait
import BikeComputer.Core.Waveform
import BikeComputer.Core.PeriodicQueue
import BikeComputer.Core.Timetable
import BikeComputer.Core.Stopping
import BikeComputer.Core.Punctual
import BikeComputer.Core.Overload
import BikeComputer.Core.TimedQueue
import BikeComputer.Core.MixedQueue
import BikeComputer.Core.MixedJobs
import BikeComputer.Common.Constants
import BikeComputer.Common.Speedometer
import BikeComputer.Common.Ride
import BikeComputer.Common.CurrentSpeed
import BikeComputer.Common.Comparison
import BikeComputer.Common.Reset
import BikeComputer.Common.SetterOrder
import BikeComputer.Common.Polling
import BikeComputer.Common.Accuracy
import BikeComputer.Common.Ranges
import BikeComputer.Common.ResetButton
import BikeComputer.Common.EventLoop
import BikeComputer.StaticScheduling.Devices
import BikeComputer.StaticScheduling.BikeSystem
import BikeComputer.StaticScheduling.Schedule
import BikeComputer.StaticScheduling.SuperLoop
import BikeComputer.StaticScheduling.GearPair
import BikeComputer.StaticScheduling.Padding
import BikeComputer.StaticScheduling.ResetWindow
import BikeComputer.StaticScheduling.SlowWindow
import BikeComputer.StaticSchedulingWithEvent.Devices
import BikeComputer.StaticSchedulingWithEvent.BikeSystem
import BikeComputer.StaticSchedulingWithEvent.ResetFlag
import BikeComputer.StaticSchedulingWithEvent.GearPair
import BikeComputer.StaticSchedulingWithEvent.Schedule
import BikeComputer.StaticSchedulingWithEvent.TimedSystem
import BikeComputer.StaticSchedulingWithEvent.Freshness
import BikeComputer.MultiTasking.Devices
import BikeComputer.MultiTasking.SharedSpeedometer
import BikeComputer.MultiTasking.ConcurrentReset
import BikeComputer.MultiTasking.BikeSystem
import BikeComputer.MultiTasking.MainLoop
import BikeComputer.MultiTasking.Mutex
import BikeComputer.MultiTasking.Agreement
import BikeComputer.MultiTasking.BoundedQueues
import BikeComputer.MultiTasking.FullQueues
import BikeComputer.MultiTasking.CachedSpeed
import BikeComputer.MultiTasking.Drain
import BikeComputer.MultiTasking.Schedule
import BikeComputer.MultiTasking.ScheduleRefinement
import BikeComputer.MultiTasking.Display
import BikeComputer.UpdateClient.CandidateApplications
import BikeComputer.Bootloader.Main
import BikeComputer.Bootloader.Verified
import BikeComputer.Correctness.Ranges
import BikeComputer.Correctness.GearPair
import BikeComputer.Correctness.PolledDevices
import BikeComputer.Correctness.PolledReset
import BikeComputer.Correctness.PolledDetection
import BikeComputer.Correctness.ResetEdges
import BikeComputer.Correctness.Schedule
import BikeComputer.Correctness.Lateness
import BikeComputer.Correctness.Response
import BikeComputer.Correctness.Simulation
import BikeComputer.Correctness.Stop
import BikeComputer.Correctness.SharedRide
import BikeComputer.Correctness.TaskReleases
import BikeComputer.Correctness.ShownInTime
