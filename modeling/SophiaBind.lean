import SophiaBind.Arguments
import SophiaBind.BoundContract
import SophiaBind.Bytes
import SophiaBind.Bytes.Base58
import SophiaBind.Bytes.Base64
import SophiaBind.Bytes.Hex
import SophiaBind.Calendar
import SophiaBind.Catalog
import SophiaBind.Catalog.Interface
import SophiaBind.Catalog.Source
import SophiaBind.Checkup
import SophiaBind.Client
import SophiaBind.CommandLine
import SophiaBind.CommandLine.Grammar
import SophiaBind.Deployer
import SophiaBind.Dialogue
import SophiaBind.Ed25519
import SophiaBind.Encoded
import SophiaBind.Fault
import SophiaBind.FileTree
import SophiaBind.Files
import SophiaBind.Given
import SophiaBind.Hash.Blake2b
import SophiaBind.Hash.Sha2
import SophiaBind.History
import SophiaBind.History.Order
import SophiaBind.Json
import SophiaBind.Json.Encoding
import SophiaBind.Json.Parser
import SophiaBind.Json.Printer
import SophiaBind.Keyed
import SophiaBind.Keypair
import SophiaBind.LinkedTree
import SophiaBind.Literal
import SophiaBind.Main
import SophiaBind.Network
import SophiaBind.NodeClient
import SophiaBind.Number.Binary64
import SophiaBind.Number.Decimal
import SophiaBind.Number.Integer
import SophiaBind.Path
import SophiaBind.Program
import SophiaBind.Result
import SophiaBind.Retry
import SophiaBind.Rlp
import SophiaBind.Settings
import SophiaBind.Sorting
import SophiaBind.Sorting.Merge
import SophiaBind.Sorting.Search
import SophiaBind.Source
import SophiaBind.Table
import SophiaBind.Text.Blank
import SophiaBind.Text.CodePoint
import SophiaBind.Text.Letter
import SophiaBind.Text.Lines
import SophiaBind.Text.Nesting
import SophiaBind.Text.Printable
import SophiaBind.Text.Quoted
import SophiaBind.Text.UpperCase
import SophiaBind.Text.Utf8
import SophiaBind.Transaction
import SophiaBind.TypeTree
import SophiaBind.TypeTree.Interface
import SophiaBind.TypeTree.Parser
import SophiaBind.Value
import SophiaBind.Value.Binary
import SophiaBind.Value.Convert
import SophiaBind.Value.Written
import SophiaBind.World
import SophiaBind.Proofs.Results
import SophiaBind.Proofs.BigEndian
import SophiaBind.Proofs.Rlp
import SophiaBind.Proofs.Spans
import SophiaBind.Proofs.Digest
import SophiaBind.Proofs.Base64
import SophiaBind.Proofs.Base58
import SophiaBind.Proofs.Encoded
import SophiaBind.Proofs.Hexadecimal
import SophiaBind.Proofs.Characters
import SophiaBind.Proofs.TypeNormal
import SophiaBind.Proofs.TypeReading
import SophiaBind.Proofs.TypeRoundTrip
import SophiaBind.Proofs.TypeGrammar
import SophiaBind.Proofs.TypeDerivation
import SophiaBind.Proofs.TypeInterface
import SophiaBind.Proofs.Splitting
import SophiaBind.Proofs.Nesting
import SophiaBind.Proofs.SourceText
import SophiaBind.Proofs.SourceSignature
import SophiaBind.Proofs.SourceScan
import SophiaBind.Proofs.InterfaceCatalog
import SophiaBind.Proofs.Effects
import SophiaBind.Proofs.Addresses
import SophiaBind.Proofs.Retries
import SophiaBind.Proofs.Requests
import SophiaBind.Proofs.Shown
import SophiaBind.Proofs.Submission
import SophiaBind.Proofs.SubmissionSafety
import SophiaBind.Proofs.JsonLine
import SophiaBind.Proofs.JsonText
import SophiaBind.Proofs.KeyedLists
import SophiaBind.Proofs.JsonReading
import SophiaBind.Proofs.Talk
import SophiaBind.Proofs.FileChanges
import SophiaBind.Proofs.FileCases
import SophiaBind.Proofs.Lines
import SophiaBind.Proofs.Utf8
import SophiaBind.Proofs.PlainLines
import SophiaBind.Proofs.HistoryListing
import SophiaBind.Proofs.HistoryLines
import SophiaBind.Proofs.LoggedRows
import SophiaBind.Proofs.Recording
import SophiaBind.Proofs.Sessions
import SophiaBind.Proofs.HistoryReading
import SophiaBind.Proofs.Sorted
import SophiaBind.Proofs.HistoryTimes
import SophiaBind.Proofs.StoredHistory
import SophiaBind.Proofs.AttemptSteps
import SophiaBind.Proofs.AttemptEndings
import SophiaBind.Proofs.Attempts
import SophiaBind.Proofs.TableRuns
import SophiaBind.Proofs.InitCall
import SophiaBind.Proofs.SessionEvents
import SophiaBind.Proofs.ReadNumbers
import SophiaBind.Proofs.DiscreetClient
import SophiaBind.Proofs.DiscreetSteps
import SophiaBind.Proofs.OpenedLog
import SophiaBind.Proofs.DeploySessions
import SophiaBind.Proofs.Explained
import SophiaBind.Proofs.CommandSessions
import SophiaBind.Proofs.Interleaving
import SophiaBind.Proofs.CallNumbers
import SophiaBind.Proofs.LinkedPaths
import SophiaBind.Proofs.IncludeWalk
import SophiaBind.Proofs.IncludeDirectives
import SophiaBind.Proofs.IncludeResolution
import SophiaBind.Proofs.TypeSpelling
import SophiaBind.Proofs.SourceComments
import SophiaBind.Proofs.SourceModifiers
import SophiaBind.Proofs.ArgumentText
import SophiaBind.Proofs.QuotedArguments
import SophiaBind.Proofs.Brackets
import SophiaBind.Proofs.CarriedOptions
import SophiaBind.Proofs.RawCalls
import SophiaBind.Proofs.SecretKeys
import SophiaBind.Proofs.Identities
import SophiaBind.Proofs.DistinctLiterals
import SophiaBind.Proofs.ItemAccess
import SophiaBind.Proofs.CatalogViews
import SophiaBind.Proofs.GasFigures
import SophiaBind.Proofs.AddressNumbers
import SophiaBind.Proofs.IncludedText
import SophiaBind.Proofs.FilesInside
import SophiaBind.Proofs.ReplacedFiles
import SophiaBind.Proofs.RunDirectories
import SophiaBind.Proofs.FoundAttempts
import SophiaBind.Proofs.SettingsFile
