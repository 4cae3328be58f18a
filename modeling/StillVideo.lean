import StillVideo.Dashboard.Worker
import StillVideo.FailureReport
import StillVideo.Main
import StillVideo.Proofs.NumberText
import StillVideo.Proofs.Rounding
import StillVideo.Proofs.ShortestDigits
import StillVideo.Proofs.NumberReading
import StillVideo.Proofs.GraphReader
import StillVideo.Proofs.GraphWiring
import StillVideo.Proofs.GraphText
import StillVideo.Proofs.JobSteps
import StillVideo.Proofs.SessionInputs
import StillVideo.Proofs.RunSteps
import StillVideo.Proofs.RunSamples
import StillVideo.Proofs.RunConsumer
import StillVideo.Proofs.SupervisedRuns
import StillVideo.Proofs.RunFailures
import StillVideo.Proofs.RunExits
import StillVideo.Proofs.RunLifecycle
import StillVideo.Proofs.ObserverIndependence
import StillVideo.Proofs.CancelRace
import StillVideo.Proofs.ChannelHandover
import StillVideo.Proofs.ScriptedRaces
import StillVideo.Proofs.NestedPaths
import StillVideo.Proofs.FileTrees
import StillVideo.Proofs.ProjectCalls
import StillVideo.Proofs.PictureDirectory
import StillVideo.Proofs.KeptSessions
import StillVideo.Proofs.RealBounds
import StillVideo.Proofs.ProjectNumbers
import StillVideo.Proofs.HostRefusals
import StillVideo.Proofs.ReadingFaults
import StillVideo.Proofs.ValidationFaults
import StillVideo.Proofs.FlatJobFaults
import StillVideo.Proofs.ArgumentSettings
import StillVideo.Proofs.ExitCodes
import StillVideo.Proofs.RecordedEvents
import StillVideo.Proofs.FlatJobCourse
import StillVideo.Proofs.PrivateDirectory
import StillVideo.Proofs.PlannedRuns
import StillVideo.Proofs.HeardLines
import StillVideo.Proofs.PanelDrawing
import StillVideo.Proofs.ProgressBlocks
import StillVideo.Proofs.ClipReading
import StillVideo.Proofs.WorkingDirectory
import StillVideo.Proofs.Housekeeping
import StillVideo.Proofs.LoggedEvents
import StillVideo.Proofs.Posting
import StillVideo.Proofs.DashboardWork
import StillVideo.Proofs.NearestNumbers
import StillVideo.Proofs.ShortDecimals
import StillVideo.Proofs.WholeMilliseconds
import StillVideo.Proofs.DecimalArithmetic
import StillVideo.Proofs.WindowEnds
import StillVideo.Proofs.ClipTimes
import StillVideo.Proofs.RoundingOrder
import StillVideo.Proofs.SampleBounds
import StillVideo.Proofs.TextParts
import StillVideo.Proofs.NumeralGrammar
import StillVideo.Proofs.RoundingErrors
import StillVideo.Proofs.ElapsedTimes
import StillVideo.Proofs.DecimalRange
import StillVideo.Proofs.ExactTimecodes
import StillVideo.Proofs.RealTexts
import StillVideo.Proofs.TimecodeOutcomes
import StillVideo.Proofs.KeptLines
import StillVideo.Proofs.CancelHistory
import StillVideo.Proofs.FileNames
import StillVideo.Proofs.OutputPlace
import StillVideo.Proofs.ShellReading
import StillVideo.Proofs.ShownCommands
import StillVideo.Proofs.JoinLists
import StillVideo.Proofs.DocumentOrder
import StillVideo.Proofs.RearrangedTimelines
import StillVideo.Proofs.PrintedFields
import StillVideo.Proofs.WholeTexts
import StillVideo.Proofs.FewestDigits
import StillVideo.Proofs.PrintedNumbers
import StillVideo.Proofs.BannerLengths
import StillVideo.Proofs.MeasuredLengths
import StillVideo.Proofs.EarlyRefusals
import StillVideo.Proofs.ClockReading
import StillVideo.Proofs.StableSlots
