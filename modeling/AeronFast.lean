import AeronFast.LabelledRuns
import AeronFast.ByteBuffers
import AeronFast.WordArithmetic
import AeronFast.Interleaving
import AeronFast.RetryLoops
import AeronFast.ResourceTraces
import AeronFast.Getopt
import AeronFast.CommandGrammar
import AeronFast.CommonTypes
import AeronFast.ConfigParser
import AeronFast.BinaryMessage
import AeronFast.Throughput
import AeronFast.Recorders
import AeronFast.AtomicRecorders
import AeronFast.BinaryPublisher
import AeronFast.BinarySubscriber
import AeronFast.ParsedOptions
import AeronFast.Rendezvous
import AeronFast.NumericOptions
import AeronFast.AddressFields
import AeronFast.DocumentedInvocations
import AeronFast.PublisherRuns
import AeronFast.PublisherCompleteness
import AeronFast.OfferAccounting
import AeronFast.SubscriberRuns
import AeronFast.SubscriberLoop
import AeronFast.SubscriberBooks
import AeronFast.EndTime
import AeronFast.Fragmentation
import AeronFast.ReportedRates
import AeronFast.IntervalLedgers
import AeronFast.IntervalTiling
import AeronFast.JoinDelay
import AeronFast.EndToEnd
import AeronFast.ExchangeCompletion
import AeronFast.ExitStatus
import AeronFast.AcceptedArgv
import AeronFast.AcceptedConfig
import AeronFast.MainFunctions
import AeronFast.HandleRelease
import AeronFast.MainExits
import AeronFast.LockFreeAggregates
import AeronFast.SampleSummary
import AeronFast.LatencyHistogram
import AeronFast.RecorderAgreement
import AeronFast.SummaryRows
import AeronFast.MessageFields
import AeronFast.CasLoops
import AeronFast.CallHistories
import AeronFast.DetailRows
import AeronFast.DetailSlots
import AeronFast.DetailedRecords
import AeronFast.BestMessage
import AeronFast.LockedSections
import AeronFast.ReporterProtocol
import AeronFast.ControlledPrograms
import AeronFast.ThreadedPublisher
import AeronFast.PublisherStartup
import AeronFast.PublisherShutdown
import AeronFast.PublisherRefinement
import AeronFast.ThreadedSubscriber
import AeronFast.SubscriberShutdown
import AeronFast.SubscriberRefinement
import AeronFast.IntervalLines
import AeronFast.ChannelUri
import AeronFast.UriGrammar
import AeronFast.ChannelRoundTrip
import AeronFast.ChannelAsRead
import AeronFast.FlatMemory
import AeronFast.TermBuffer
import AeronFast.TermAppends
import AeronFast.TermReads
import AeronFast.FragmentAssembly
import AeronFast.AssembledMessages
import AeronFast.TermDelivery
