import DrEvt.Library.StepFunction
import DrEvt.Library.Traced
import DrEvt.Timeline
import DrEvt.Scheduler.Plan
import DrEvt.Scheduler.Windows
import DrEvt.Scheduler.SearchCache
import DrEvt.Scheduler.Rounding
import DrEvt.Scheduler.HeadRoom
import DrEvt.Trace.Event
import DrEvt.Sim.Refinement
import DrEvt.Sim.AdvanceTo
import DrEvt.Sim.History
import DrEvt.Sim.Admission
import DrEvt.Sim.Streaming
import DrEvt.Sim.Completion
import DrEvt.Sim.Batch
import DrEvt.Sim.RoundTrip
import DrEvt.Sim.Statistics
import DrEvt.Sim.Atomic
import DrEvt.Sim.EventDriven
import DrEvt.Sim.EasyGuarantee
import DrEvt.Sim.QueueDrain
import DrEvt.Scheduler.PredictionHorizon
import DrEvt.Trace.Periods
import DrEvt.Trace.SingleEvent
import DrEvt.Scheduler.BlockQueue
import DrEvt.Trace.Columns
import DrEvt.Trace.Timestamp
import DrEvt.Scheduler.QueueRun
import DrEvt.Trace.SwfMachine
import DrEvt.Trace.Power
import DrEvt.Server.Streams
import DrEvt.Sim.Accepted
import DrEvt.Sim.ExactStarts
import DrEvt.Sim.CapacitySchedule
