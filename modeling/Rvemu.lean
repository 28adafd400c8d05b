import Rvemu.Main
import Rvemu.Proofs.Arguments
import Rvemu.Proofs.Boxing
import Rvemu.Proofs.Bytes
import Rvemu.Proofs.Classify
import Rvemu.Proofs.Convert
import Rvemu.Proofs.Decode
import Rvemu.Proofs.Division
import Rvemu.Proofs.Drift
import Rvemu.Proofs.Expansion
import Rvemu.Proofs.Fetch
import Rvemu.Proofs.Footprint
import Rvemu.Proofs.Fstat
import Rvemu.Proofs.Image
import Rvemu.Proofs.Live
import Rvemu.Proofs.Locality
import Rvemu.Proofs.MinMax
import Rvemu.Proofs.Multiply
import Rvemu.Proofs.Output
import Rvemu.Proofs.Overflow
import Rvemu.Proofs.Parity
import Rvemu.Proofs.Record
import Rvemu.Proofs.Release
import Rvemu.Proofs.Rv64i
import Rvemu.Proofs.Rv64imc
import Rvemu.Proofs.Stops
import Rvemu.Proofs.Start
