import JvmClass.AccessFlags
import JvmClass.Bytes.ModifiedUtf8
import JvmClass.CommandLine
import JvmClass.Descriptor.Printer
import JvmClass.Descriptor.SourceName
import JvmClass.Listing.Directory
import JvmClass.Main
import JvmClass.Proofs.RoundTrip
import JvmClass.Proofs.TableDecoding
import JvmClass.Proofs.DescriptorGrammar
import JvmClass.Proofs.TableIsolation
import JvmClass.Proofs.DescriptorFaults
import JvmClass.Proofs.Truncation
import JvmClass.Reader.Session
import JvmClass.Proofs.OutlineListing
import JvmClass.Proofs.Failures
import JvmClass.Proofs.PoolIndices
import JvmClass.Proofs.ReaderWindows
import JvmClass.Proofs.ShiftedParsing
import JvmClass.Proofs.ChangedBodies
import JvmClass.Proofs.CommandRuns
import JvmClass.Proofs.ErrorRecords
import JvmClass.Proofs.ErrorAttribution
import JvmClass.Proofs.DamagedMethods
import JvmClass.Proofs.PermissiveRuns
import JvmClass.Proofs.EntryLocality
import JvmClass.Proofs.DescriptorWarnings
import JvmClass.Proofs.RecursiveNames
import JvmClass.Proofs.TableLog
import JvmClass.Proofs.UnitwiseText
import JvmClass.Proofs.CodeBodies
import JvmClass.Proofs.SettledCalls
import JvmClass.Proofs.DescriptorScans
