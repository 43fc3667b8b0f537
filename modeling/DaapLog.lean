import DaapLog.CStrings
import DaapLog.TcpLogWrite
import DaapLog.BuildInflux
import DaapLog.LineProtocol
import DaapLog.InfluxRoundTrip
import DaapLog.TableTemplates
import DaapLog.TemplateLines
import DaapLog.TemplateFields
import DaapLog.TemplateRoundTrip
import DaapLog.Runs
import DaapLog.TableRecognition
import DaapLog.ResultsParser
import DaapLog.RowHistory
import DaapLog.OrderedHash
import DaapLog.LinearPatterns
import DaapLog.PatternMatches
import DaapLog.RubyStrings
import DaapLog.RubyValues
import DaapLog.PluginActions
import DaapLog.PluginMessages
import DaapLog.CaliperReports
import DaapLog.TextDispatch
import DaapLog.PluginChildren
import DaapLog.PluginProcess
import DaapLog.ChildRecords
import DaapLog.ErrorIsolation
import DaapLog.MessageDispatch
import DaapLog.MemoryHistory
import DaapLog.MemoryMaximum
import DaapLog.TracedCalls
import DaapLog.TlsTransport
import DaapLog.TransportResources
import DaapLog.LibraryCalls
import DaapLog.LibraryLifeCycle
import DaapLog.TlsLifeCycle
import DaapLog.JobMarkers
import DaapLog.DeliveryResult
import DaapLog.InitTransport
import DaapLog.ChunkBoundaries
import DaapLog.GsubWeights
import DaapLog.GreedyMatches
import DaapLog.GsubCuts
import DaapLog.CleanMessages
import DaapLog.RepeatedProcessing
import DaapLog.LifeCycleMessages
import DaapLog.TableEntry
import DaapLog.LineDecoding
import DaapLog.SyslogLevel
import DaapLog.MessageText
import DaapLog.WriteFailures
import DaapLog.PrintfFormats
import DaapLog.LiteralMessages
import DaapLog.PavilionResults
import DaapLog.Tokens
import DaapLog.RowValues
import DaapLog.RowSeparators
import DaapLog.Ranks
import DaapLog.NumberedValues
import DaapLog.UnalteredValues
import DaapLog.ValueNames
import DaapLog.KeyPairs
import DaapLog.SkippedChildren
import DaapLog.ChildExpansions
import DaapLog.JobIndependence
import DaapLog.JobinfoLayouts
import DaapLog.TextRecords
import DaapLog.MessageTimes
import DaapLog.CaliperIndentation
import DaapLog.MessageItems
import DaapLog.ReachedItems
import DaapLog.SurvivingValues
import DaapLog.FileLines
import DaapLog.ByteBuffers
import DaapLog.HostNames
import DaapLog.CertificatePaths
import DaapLog.StaleJobs
import DaapLog.LineTrimming
import DaapLog.KeyTemplates
import DaapLog.TemplateBounds
import DaapLog.RowBounds
import DaapLog.ResultsTrimming
import DaapLog.LongLines
import DaapLog.ForeignKeywords
import DaapLog.Threads
import DaapLog.CriticalSections
import DaapLog.LibraryThreads
import DaapLog.MutexOrder
import DaapLog.SoloCalls
import DaapLog.ConcurrentWrites
import DaapLog.ConcurrentLines
import DaapLog.OnceInitialisation
import DaapLog.ConcurrentInit
import DaapLog.ProcessLines
import DaapLog.JobRecords
import DaapLog.ParserIndices
import DaapLog.StdoutParser
import DaapLog.ThreadedProcess
import DaapLog.CallTermination
import DaapLog.AcceptanceResults
import DaapLog.DataRaces
import DaapLog.GlobalAccesses
import DaapLog.MemorySafety
