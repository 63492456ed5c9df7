import WebAssembly.CommandLine.Directory
import WebAssembly.Main
import WebAssembly.Proofs.Arrangement
import WebAssembly.Proofs.Constant
import WebAssembly.Proofs.Discipline
import WebAssembly.Proofs.Expansion
import WebAssembly.Proofs.FloatLiteral
import WebAssembly.Proofs.Formats
import WebAssembly.Proofs.Insertion
import WebAssembly.Proofs.Locals
import WebAssembly.Proofs.Location
import WebAssembly.Proofs.Nesting
import WebAssembly.Proofs.Printer
import WebAssembly.Proofs.Recovery
import WebAssembly.Proofs.RoundTrip
import WebAssembly.Proofs.Streaming
import WebAssembly.Proofs.Table
import WebAssembly.Proofs.Truncation
import WebAssembly.Session
